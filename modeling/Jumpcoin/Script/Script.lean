import Jumpcoin.Serialize.Compressor

/-!
# Script parsing

The parts of `script/script.cpp` and `script/standard.cpp` that block validation uses: splitting a
script into operations, counting signature operations, and recognising the standard output
scripts; and the flags of the interpreter. Where blocks are validated, the verifier of scripts is a
parameter; `Jumpcoin.Script.Interpreter` is the one of the source.

The loops that walk a script take its length as their bound: every operation consumes at least one
byte.
-/

namespace Jumpcoin

open Codec

def OP_PUSHDATA1 : UInt8 := 0x4c
def OP_PUSHDATA2 : UInt8 := 0x4d
def OP_PUSHDATA4 : UInt8 := 0x4e
def OP_1 : UInt8 := 0x51
def OP_16 : UInt8 := 0x60
def OP_CHECKSIGVERIFY : UInt8 := 0xad
def OP_CHECKMULTISIG : UInt8 := 0xae
def OP_CHECKMULTISIGVERIFY : UInt8 := 0xaf
def OP_SMALLINTEGER : UInt8 := 0xfa
def OP_PUBKEYS : UInt8 := 0xfb
def OP_PUBKEYHASH : UInt8 := 0xfd
def OP_PUBKEY : UInt8 := 0xfe
def OP_INVALIDOPCODE : UInt8 := 0xff

def MAX_PUBKEYS_PER_MULTISIG : Nat := 20

/-- Lock times below it are heights, the others are times. -/
def LOCKTIME_THRESHOLD : Int := 500000000

/-! ## Verification flags -/

def SCRIPT_VERIFY_P2SH : Nat := 1 <<< 0
def SCRIPT_VERIFY_STRICTENC : Nat := 1 <<< 1
def SCRIPT_VERIFY_DERSIG : Nat := 1 <<< 2
def SCRIPT_VERIFY_LOW_S : Nat := 1 <<< 3
def SCRIPT_VERIFY_NULLDUMMY : Nat := 1 <<< 4
def SCRIPT_VERIFY_SIGPUSHONLY : Nat := 1 <<< 5
def SCRIPT_VERIFY_MINIMALDATA : Nat := 1 <<< 6
def SCRIPT_VERIFY_DISCOURAGE_UPGRADABLE_NOPS : Nat := 1 <<< 7
def SCRIPT_VERIFY_CLEANSTACK : Nat := 1 <<< 8
def SCRIPT_VERIFY_CHECKLOCKTIMEVERIFY : Nat := 1 <<< 9
def SCRIPT_VERIFY_DERKEY : Nat := 1 <<< 10
def SCRIPT_VERIFY_CHECKSEQUENCEVERIFY : Nat := 1 <<< 11
def SCRIPT_VERIFY_MINIMALIF : Nat := 1 <<< 13
def SCRIPT_VERIFY_NULLFAIL : Nat := 1 <<< 14

/-! ## Operations -/

/-- The length in front of a pushed operand, for the opcodes that push. -/
def readPushSize (opcode : UInt8) : Reader Nat :=
  if opcode < OP_PUSHDATA1 then pure opcode.toNat
  else if opcode = OP_PUSHDATA1 then readLittleEndian 1
  else if opcode = OP_PUSHDATA2 then readLittleEndian 2
  else readLittleEndian 4

def getOp : Reader (UInt8 × Bytes) := do
  let opcode ← readByte
  if opcode ≤ OP_PUSHDATA4 then
    let nSize ← readPushSize opcode
    let data ← readBytes nSize
    pure (opcode, data)
  else pure (opcode, [])

lemma getOp_nil : getOp.run [] = none := rfl

lemma getOp_cons (opcode : UInt8) (pc : CScript) :
    getOp.run (opcode :: pc) =
      if opcode ≤ OP_PUSHDATA4 then
        (readPushSize opcode).run pc >>= fun (nSize, pc) =>
          (readBytes nSize).run pc >>= fun (data, pc) => some ((opcode, data), pc)
      else some ((opcode, []), pc) := by
  change (if opcode ≤ OP_PUSHDATA4 then _ else _ : Reader (UInt8 × Bytes)).run pc = _
  split_ifs
  · rfl
  · rfl

lemma readPushSize_suffix {opcode : UInt8} {nSize : Nat} {bytes rest : Bytes}
    (h : (readPushSize opcode).run bytes = some (nSize, rest)) : rest <:+ bytes := by
  unfold readPushSize at h
  split_ifs at h
  · obtain ⟨-, rfl⟩ : opcode.toNat = nSize ∧ bytes = rest := by simpa using h
    exact List.suffix_rfl
  all_goals exact readLittleEndian_suffix h

/-- What `GetOp` leaves is the end of what it was given, without the opcode; without anything else
too unless the opcode pushes an operand. -/
lemma getOp_run {script rest : CScript} {opcode : UInt8} {data : Bytes}
    (h : getOp.run script = some ((opcode, data), rest)) :
    ∃ operand, script = opcode :: (operand ++ rest) ∧
      (OP_PUSHDATA4 < opcode → operand = [] ∧ data = []) := by
  cases script with
  | nil => simp [getOp_nil] at h
  | cons first pc =>
    rw [getOp_cons] at h
    split_ifs at h with hpush
    · simp only [Option.bind_eq_bind, Option.bind_eq_some_iff, Option.some.injEq,
        Prod.mk.injEq] at h
      obtain ⟨⟨nSize, pc'⟩, hsize, ⟨data', pc''⟩, hdata, ⟨rfl, rfl⟩, rfl⟩ := h
      obtain ⟨operand, rfl⟩ := (readBytes_suffix hdata).trans (readPushSize_suffix hsize)
      exact ⟨operand, rfl, fun hlt => absurd hpush (UInt8.not_le.mpr hlt)⟩
    · obtain ⟨⟨rfl, rfl⟩, rfl⟩ := h
      exact ⟨[], rfl, fun _ => ⟨rfl, rfl⟩⟩

/-- `DecodeOP_N` on the opcodes it is defined for. -/
def decodeOpN (opcode : UInt8) : Nat :=
  if opcode = 0 then 0 else opcode.toNat - (OP_1.toNat - 1)

/-! ## Signature operations -/

def sigOpCountLoop (fAccurate : Bool) : Nat → UInt8 → CScript → Nat
  | 0, _, _ => 0
  | fuel + 1, lastOpcode, script =>
    match getOp.run script with
    | none => 0
    | some ((opcode, _), rest) =>
      let n :=
        if opcode = OP_CHECKSIG ∨ opcode = OP_CHECKSIGVERIFY then 1
        else if opcode = OP_CHECKMULTISIG ∨ opcode = OP_CHECKMULTISIGVERIFY then
          if fAccurate ∧ OP_1 ≤ lastOpcode ∧ lastOpcode ≤ OP_16 then decodeOpN lastOpcode
          else MAX_PUBKEYS_PER_MULTISIG
        else 0
      n + sigOpCountLoop fAccurate fuel opcode rest

def getSigOpCount (fAccurate : Bool) (script : CScript) : Nat :=
  sigOpCountLoop fAccurate script.length OP_INVALIDOPCODE script

def isPayToScriptHash (script : CScript) : Bool :=
  (isToScriptID script).isSome

/-- The last item a push-only script pushes; no value if it is not push-only. -/
def lastPush : Nat → Bytes → CScript → Option Bytes
  | 0, data, _ => some data
  | fuel + 1, data, script =>
    if script.isEmpty then some data
    else
      match getOp.run script with
      | none => none
      | some ((opcode, data'), rest) =>
        if OP_16 < opcode then none else lastPush fuel data' rest

/-- `GetSigOpCount(scriptSig)`: for pay-to-script-hash the count of the script the input pushes. -/
def getSigOpCountP2SH (scriptPubKey scriptSig : CScript) : Nat :=
  if isPayToScriptHash scriptPubKey then
    match lastPush scriptSig.length [] scriptSig with
    | some data => getSigOpCount true data
    | none => 0
  else getSigOpCount true scriptPubKey

def isPushOnly : Nat → CScript → Bool
  | 0, _ => true
  | fuel + 1, script =>
    if script.isEmpty then true
    else
      match getOp.run script with
      | none => false
      | some ((opcode, _), rest) => decide (opcode ≤ OP_16) && isPushOnly fuel rest

/-! ## Standard output scripts -/

inductive TxnOutType where
  | nonstandard
  | pubkey
  | pubkeyhash
  | scripthash
  | multisig
  | nulldata
  deriving DecidableEq, Repr

/-- The inner loop for `OP_PUBKEYS`: collect operands of key size, and stop at the first operation
that is none. -/
def takePubKeys :
    Nat → UInt8 × Bytes → CScript → List Bytes → (UInt8 × Bytes) × CScript × List Bytes
  | 0, op, script, vSolutions => (op, script, vSolutions)
  | fuel + 1, op, script, vSolutions =>
    if 33 ≤ op.2.length ∧ op.2.length ≤ 65 then
      match getOp.run script with
      | none => ((OP_INVALIDOPCODE, []), script, vSolutions ++ [op.2])
      | some (op', rest) => takePubKeys fuel op' rest (vSolutions ++ [op.2])
    else (op, script, vSolutions)

/-- One template opcode other than `OP_PUBKEYS` against one operation. -/
def matchOp (opcode2 : UInt8) (op : UInt8 × Bytes) (vSolutions : List Bytes) :
    Option (List Bytes) :=
  if opcode2 = OP_PUBKEY then
    if op.2.length < 33 ∨ 65 < op.2.length then none else some (vSolutions ++ [op.2])
  else if opcode2 = OP_PUBKEYHASH then
    if op.2.length ≠ 20 then none else some (vSolutions ++ [op.2])
  else if opcode2 = OP_SMALLINTEGER then
    if op.1 = 0 ∨ (OP_1 ≤ op.1 ∧ op.1 ≤ OP_16) then
      some (vSolutions ++ [[UInt8.ofNat (decodeOpN op.1)]])
    else none
  else if op.1 ≠ opcode2 ∨ op.2 ≠ [] then none
  else some vSolutions

def matchTemplate : List UInt8 → CScript → List Bytes → Option (List Bytes)
  | [], script, vSolutions => if script.isEmpty then some vSolutions else none
  | opcode2 :: template, script, vSolutions =>
    match getOp.run script with
    | none => none
    | some (op, rest) =>
      if opcode2 = OP_PUBKEYS then
        match template with
        | [] => none
        | next :: template' =>
          let (op', rest', vSolutions') := takePubKeys script.length op rest vSolutions
          (matchOp next op' vSolutions').bind (matchTemplate template' rest')
      else (matchOp opcode2 op vSolutions).bind (matchTemplate template rest)

def multisigOk (vSolutions : List Bytes) : Bool :=
  match vSolutions.head?, vSolutions.getLast? with
  | some (m :: _), some (n :: _) =>
    !(decide (m < 1) || decide (n < 1) || decide (n < m) ||
      decide (vSolutions.length - 2 ≠ n.toNat))
  | _, _ => false

/-- `Solver`: the type of a standard output script and its keys or hashes; no value where the
source returns false. -/
def solver (scriptPubKey : CScript) : Option (TxnOutType × List Bytes) :=
  if isPayToScriptHash scriptPubKey then
    some (.scripthash, [(scriptPubKey.drop 2).take 20])
  else if scriptPubKey.head? = some CTxOut.OP_RETURN ∧
      isPushOnly scriptPubKey.length scriptPubKey.tail = true then
    some (.nulldata, [])
  else
    match matchTemplate [OP_PUBKEY, OP_CHECKSIG] scriptPubKey [] with
    | some vSolutions => some (.pubkey, vSolutions)
    | none =>
      match matchTemplate [OP_DUP, OP_HASH160, OP_PUBKEYHASH, OP_EQUALVERIFY, OP_CHECKSIG]
          scriptPubKey [] with
      | some vSolutions => some (.pubkeyhash, vSolutions)
      | none =>
        match matchTemplate [OP_SMALLINTEGER, OP_PUBKEYS, OP_SMALLINTEGER, OP_CHECKMULTISIG]
            scriptPubKey [] with
        | some vSolutions => if multisigOk vSolutions then some (.multisig, vSolutions) else none
        | none => none

def isCompressedOrUncompressedPubKey (vchPubKey : Bytes) : Bool :=
  match vchPubKey.head? with
  | none => false
  | some header =>
    if vchPubKey.length < 33 then false
    else if header = 0x04 then decide (vchPubKey.length = 65)
    else if header = 0x02 ∨ header = 0x03 then decide (vchPubKey.length = 33)
    else false

end Jumpcoin
