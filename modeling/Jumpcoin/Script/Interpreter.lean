import Jumpcoin.Foundation.Check
import Jumpcoin.Script.SigHash

/-!
# The script interpreter

`EvalScript` and `VerifyScript` of `script/interpreter.cpp`: a stack machine without loops, run on
the script of an input, on that of the output it spends and, for pay-to-script-hash, on the script
that the input pushes last.

The machine works on a state with the stack (top first), the alternative stack, the open
conditionals (innermost first) and the rest of the script. A failed check leaves its error there
and refuses; an exception halts, and `EvalScript` turns it into a refusal. The state also counts
the calls of `CheckSig`.

Hash functions, the curve and the transaction that is checked are parameters.
-/

namespace Jumpcoin

open Codec Check

/-! ## Errors -/

inductive ScriptError where
  | ok
  | unknownError
  | evalFalse
  | opReturn
  | scriptSize
  | pushSize
  | opCount
  | stackSize
  | sigCount
  | pubkeyCount
  | verify
  | equalVerify
  | checkMultiSigVerify
  | checkSigVerify
  | numEqualVerify
  | badOpcode
  | disabledOpcode
  | invalidStackOperation
  | invalidAltstackOperation
  | unbalancedConditional
  | negativeLocktime
  | unsatisfiedLocktime
  | sigHashtype
  | sigDer
  | minimalData
  | sigPushOnly
  | sigHighS
  | sigNullDummy
  | pubkeyType
  | cleanStack
  | minimalIf
  | sigNullFail
  | discourageUpgradableNops
  deriving DecidableEq, Repr

def scriptErrorString : ScriptError → String
  | .ok => "No error"
  | .evalFalse =>
    "Script evaluated without error but finished with a false/empty top stack element"
  | .verify => "Script failed an OP_VERIFY operation"
  | .equalVerify => "Script failed an OP_EQUALVERIFY operation"
  | .checkMultiSigVerify => "Script failed an OP_CHECKMULTISIGVERIFY operation"
  | .checkSigVerify => "Script failed an OP_CHECKSIGVERIFY operation"
  | .numEqualVerify => "Script failed an OP_NUMEQUALVERIFY operation"
  | .scriptSize => "Script is too big"
  | .pushSize => "Push value size limit exceeded"
  | .opCount => "Operation limit exceeded"
  | .stackSize => "Stack size limit exceeded"
  | .sigCount => "Signature count negative or greater than pubkey count"
  | .pubkeyCount => "Pubkey count negative or limit exceeded"
  | .badOpcode => "Opcode missing or not understood"
  | .disabledOpcode => "Attempted to use a disabled opcode"
  | .invalidStackOperation => "Operation not valid with the current stack size"
  | .invalidAltstackOperation => "Operation not valid with the current altstack size"
  | .opReturn => "OP_RETURN was encountered"
  | .unbalancedConditional => "Invalid OP_IF construction"
  | .negativeLocktime => "Negative locktime"
  | .unsatisfiedLocktime => "Locktime requirement not satisfied"
  | .sigHashtype => "Signature hash type missing or not understood"
  | .sigDer => "Non-canonical DER signature"
  | .minimalData => "Data push larger than necessary"
  | .sigPushOnly => "Only non-push operators allowed in signatures"
  | .sigHighS => "Non-canonical signature: S value is unnecessarily high"
  | .sigNullDummy => "Dummy CHECKMULTISIG argument must be zero"
  | .minimalIf => "OP_IF/NOTIF argument must be minimal"
  | .sigNullFail => "Signature must be zero for failed CHECK(MULTI)SIG operation"
  | .discourageUpgradableNops => "NOPx reserved for soft-fork upgrades"
  | .pubkeyType => "Public key is neither compressed or uncompressed"
  | .unknownError | .cleanStack => "unknown error"

/-! ## Parameters -/

/-- The hash functions of the crypto opcodes, and the test for a low S value. -/
structure ScriptLib where
  ripemd160 : Bytes → List.Vector UInt8 20
  sha1 : Bytes → List.Vector UInt8 20
  sha256 : Bytes → List.Vector UInt8 32
  checkLowS : Bytes → Bool

structure SignatureChecker where
  checkSig : Bytes → Bytes → CScript → Bool
  checkLockTime : Int → Bool
  checkSequence : Int → Bool

def hasFlag (flags flag : Nat) : Bool :=
  flags &&& flag != 0

/-! ## Values -/

def MAX_SCRIPT_ELEMENT_SIZE : Nat := 520
def MAX_OPS_PER_SCRIPT : Nat := 201

/-- `CastToBool`: some byte is not zero, other than the sign of a negative zero. -/
def castToBool : Bytes → Bool
  | [] => false
  | [b] => b != 0 && b != 0x80
  | b :: vch => b != 0 || castToBool vch

def vchOfBool (b : Bool) : Bytes :=
  if b then [1] else []

namespace CScriptNum

/-- A number in its shortest form: the most significant byte is needed for more than the sign. -/
def isMinimal (vch : Bytes) : Bool :=
  match vch.reverse with
  | [] => true
  | [b] => b &&& 0x7f != 0
  | b :: b' :: _ => b &&& 0x7f != 0 || b' &&& 0x80 != 0

def setVch (vch : Bytes) : Int :=
  let result := fromLittleEndian vch
  if vch.getLastD 0 &&& 0x80 != 0 then -((result : Int) - 0x80 * 256 ^ (vch.length - 1)) else result

/-- The number on a stack; no value where the constructor throws. -/
def ofVch (vch : Bytes) (fRequireMinimal : Bool) (nMaxNumSize : Nat) : Option Int :=
  if nMaxNumSize < vch.length then none
  else if fRequireMinimal && !isMinimal vch then none
  else some (setVch vch)

def nDefaultMaxNumSize : Nat := 4

def getvch (value : Int) : Bytes :=
  if value = 0 then []
  else
    let result := littleEndian (value.natAbs.log2 / 8 + 1) value.natAbs
    let back := result.getLastD 0
    if back &&& 0x80 != 0 then result ++ [if value < 0 then 0x80 else 0]
    else if value < 0 then result.dropLast ++ [back ||| 0x80]
    else result

def getInt (value : Int) : Int :=
  max (-2 ^ 31) (min value (2 ^ 31 - 1))

end CScriptNum

/-! ## Encodings -/

/-- `IsValidSignatureEncoding`: `0x30 [length] 0x02 [length] [R] 0x02 [length] [S] [hash type]`. -/
def isValidSignatureEncoding (sig : Bytes) (haveHashType : Bool) : Bool :=
  let byte := fun i => sig.getD i 0
  let lenR := (byte 3).toNat
  let lenS := (byte (5 + lenR)).toNat
  !decide (sig.length < 9) && !decide (73 < sig.length) && byte 0 == 0x30 &&
    decide ((byte 1).toNat = sig.length - if haveHashType then 3 else 2) &&
    !decide (sig.length ≤ 5 + lenR) &&
    decide (lenR + lenS + (if haveHashType then 7 else 6) = sig.length) &&
    byte 2 == 0x02 && lenR != 0 && byte 4 &&& 0x80 == 0 &&
    !(decide (1 < lenR) && byte 4 == 0x00 && byte 5 &&& 0x80 == 0) &&
    byte (lenR + 4) == 0x02 && lenS != 0 && byte (lenR + 6) &&& 0x80 == 0 &&
    !(decide (1 < lenS) && byte (lenR + 6) == 0x00 && byte (lenR + 7) &&& 0x80 == 0)

def lowDERSignatureError (lib : ScriptLib) (vchSig : Bytes) : Option ScriptError :=
  if !isValidSignatureEncoding vchSig true then some .sigDer
  else if !lib.checkLowS vchSig.dropLast then some .sigHighS
  else none

def isDefinedHashtypeSignature (vchSig : Bytes) : Bool :=
  match vchSig.getLast? with
  | none => false
  | some b =>
    let nHashType := (b &&& 0x7f).toUInt32
    !(decide (nHashType < SIGHASH_ALL) || decide (SIGHASH_SINGLE < nHashType))

def checkSignatureEncoding (lib : ScriptLib) (flags : Nat) (vchSig : Bytes) : Option ScriptError :=
  if vchSig.isEmpty then none
  else if hasFlag flags (SCRIPT_VERIFY_DERSIG ||| SCRIPT_VERIFY_LOW_S |||
        SCRIPT_VERIFY_STRICTENC) &&
      !isValidSignatureEncoding vchSig true then some .sigDer
  else
    match if hasFlag flags SCRIPT_VERIFY_LOW_S then lowDERSignatureError lib vchSig else none with
    | some serror => some serror
    | none =>
      if hasFlag flags SCRIPT_VERIFY_STRICTENC && !isDefinedHashtypeSignature vchSig then
        some .sigHashtype
      else none

def checkPubKeyEncoding (flags : Nat) (vchPubKey : Bytes) : Option ScriptError :=
  if hasFlag flags (SCRIPT_VERIFY_DERKEY ||| SCRIPT_VERIFY_STRICTENC) &&
      !isCompressedOrUncompressedPubKey vchPubKey then some .pubkeyType
  else none

/-- `CheckMinimalPush`: the operand could not have been pushed in a shorter way. -/
def checkMinimalPush (data : Bytes) (opcode : UInt8) : Bool :=
  match data with
  | [] => opcode == 0
  | [b] =>
    if 1 ≤ b ∧ b ≤ 16 then opcode == OP_1 + (b - 1)
    else if b = 0x81 then opcode == 0x4f
    else opcode == 1
  | _ =>
    if data.length ≤ 75 then decide (opcode.toNat = data.length)
    else if data.length ≤ 255 then opcode == OP_PUSHDATA1
    else if data.length ≤ 65535 then opcode == OP_PUSHDATA2
    else true

/-! ## Opcodes -/

def OP_IF : UInt8 := 0x63
def OP_ENDIF : UInt8 := 0x68
def OP_CHECKLOCKTIMEVERIFY : UInt8 := 0xb1
def OP_CHECKSEQUENCEVERIFY : UInt8 := 0xb2

/-- The opcodes that only rearrange or measure the stack. -/
inductive StackOp where
  | drop2 | dup2 | dup3 | over2 | rot2 | swap2 | ifDup | depth | drop | dup | nip | over | rot
  | swap | tuck | size
  deriving DecidableEq, Repr

/-- `OP_1ADD` to `OP_0NOTEQUAL`. -/
inductive UnaryOp where
  | add1 | sub1 | negate | abs | not | notEqual0
  deriving DecidableEq, Repr

/-- `OP_ADD` to `OP_MAX`. -/
inductive BinaryOp where
  | add | sub | boolAnd | boolOr | numEqual | numEqualVerify | numNotEqual | lessThan | greaterThan
  | lessThanOrEqual | greaterThanOrEqual | min | max
  deriving DecidableEq, Repr

inductive HashOp where
  | ripemd160 | sha1 | sha256 | hash160 | hash256
  deriving DecidableEq, Repr

/-- The cases of the switch in `EvalScript`. Opcodes that share their code differ in an
argument. -/
inductive Op where
  | number (n : Int)
  | nop
  | checkLockTimeVerify
  | checkSequenceVerify
  | nopN
  | ifThen (negate : Bool)
  | ifElse
  | endIf
  | verify
  | opReturn
  | toAltStack
  | fromAltStack
  | stack (op : StackOp)
  | pick (roll : Bool)
  | equal (verify : Bool)
  | unary (op : UnaryOp)
  | binary (op : BinaryOp)
  | within
  | hash (op : HashOp)
  | codeSeparator
  | checkSig (verify : Bool)
  | checkMultiSig (verify : Bool)
  | badOpcode
  deriving DecidableEq, Repr

/-- The opcodes from `OP_NOP` on that the switch knows. -/
def opTable : List (UInt8 × Op) :=
  [(0x61, .nop), (0x63, .ifThen false), (0x64, .ifThen true), (0x67, .ifElse), (0x68, .endIf),
    (0x69, .verify), (0x6a, .opReturn), (0x6b, .toAltStack), (0x6c, .fromAltStack),
    (0x6d, .stack .drop2), (0x6e, .stack .dup2), (0x6f, .stack .dup3), (0x70, .stack .over2),
    (0x71, .stack .rot2), (0x72, .stack .swap2), (0x73, .stack .ifDup), (0x74, .stack .depth),
    (0x75, .stack .drop), (0x76, .stack .dup), (0x77, .stack .nip), (0x78, .stack .over),
    (0x79, .pick false), (0x7a, .pick true), (0x7b, .stack .rot), (0x7c, .stack .swap),
    (0x7d, .stack .tuck), (0x82, .stack .size), (0x87, .equal false), (0x88, .equal true),
    (0x8b, .unary .add1), (0x8c, .unary .sub1), (0x8f, .unary .negate), (0x90, .unary .abs),
    (0x91, .unary .not), (0x92, .unary .notEqual0), (0x93, .binary .add), (0x94, .binary .sub),
    (0x9a, .binary .boolAnd), (0x9b, .binary .boolOr), (0x9c, .binary .numEqual),
    (0x9d, .binary .numEqualVerify), (0x9e, .binary .numNotEqual), (0x9f, .binary .lessThan),
    (0xa0, .binary .greaterThan), (0xa1, .binary .lessThanOrEqual),
    (0xa2, .binary .greaterThanOrEqual), (0xa3, .binary .min), (0xa4, .binary .max),
    (0xa5, .within), (0xa6, .hash .ripemd160), (0xa7, .hash .sha1), (0xa8, .hash .sha256),
    (0xa9, .hash .hash160), (0xaa, .hash .hash256), (0xab, .codeSeparator), (0xac, .checkSig false),
    (0xad, .checkSig true), (0xae, .checkMultiSig false), (0xaf, .checkMultiSig true),
    (0xb0, .nopN), (0xb1, .checkLockTimeVerify), (0xb2, .checkSequenceVerify), (0xb3, .nopN),
    (0xb4, .nopN), (0xb5, .nopN), (0xb6, .nopN), (0xb7, .nopN), (0xb8, .nopN), (0xb9, .nopN)]

/-- The case of an opcode. `OP_1NEGATE` and `OP_1` to `OP_16` push a number. -/
def opOf (opcode : UInt8) : Op :=
  if opcode = 0x4f ∨ OP_1 ≤ opcode ∧ opcode ≤ OP_16 then
    .number ((opcode.toNat : Int) - (OP_1.toNat - 1))
  else (opTable.lookup opcode).getD .badOpcode

/-- `OP_CAT`, `OP_SUBSTR`, `OP_LEFT`, `OP_RIGHT`, `OP_INVERT`, `OP_AND`, `OP_OR`, `OP_XOR`,
`OP_2MUL`, `OP_2DIV`, `OP_MUL`, `OP_DIV`, `OP_MOD`, `OP_LSHIFT` and `OP_RSHIFT`. -/
def disabledOpcodes : List UInt8 :=
  [0x7e, 0x7f, 0x80, 0x81, 0x83, 0x84, 0x85, 0x86, 0x8d, 0x8e, 0x95, 0x96, 0x97, 0x98, 0x99]

/-! ## What opcodes compute -/

/-- No value if the stack is too short. -/
def StackOp.apply : StackOp → List Bytes → Option (List Bytes)
  | .drop2, _ :: _ :: stack => some stack
  | .dup2, x2 :: x1 :: stack => some (x2 :: x1 :: x2 :: x1 :: stack)
  | .dup3, x3 :: x2 :: x1 :: stack => some (x3 :: x2 :: x1 :: x3 :: x2 :: x1 :: stack)
  | .over2, x4 :: x3 :: x2 :: x1 :: stack => some (x2 :: x1 :: x4 :: x3 :: x2 :: x1 :: stack)
  | .rot2, x6 :: x5 :: x4 :: x3 :: x2 :: x1 :: stack =>
    some (x2 :: x1 :: x6 :: x5 :: x4 :: x3 :: stack)
  | .swap2, x4 :: x3 :: x2 :: x1 :: stack => some (x2 :: x1 :: x4 :: x3 :: stack)
  | .ifDup, x :: stack => some (if castToBool x then x :: x :: stack else x :: stack)
  | .depth, stack => some (CScriptNum.getvch stack.length :: stack)
  | .drop, _ :: stack => some stack
  | .dup, x :: stack => some (x :: x :: stack)
  | .nip, x2 :: _ :: stack => some (x2 :: stack)
  | .over, x2 :: x1 :: stack => some (x1 :: x2 :: x1 :: stack)
  | .rot, x3 :: x2 :: x1 :: stack => some (x1 :: x3 :: x2 :: stack)
  | .swap, x2 :: x1 :: stack => some (x1 :: x2 :: stack)
  | .tuck, x2 :: x1 :: stack => some (x2 :: x1 :: x2 :: stack)
  | .size, x :: stack => some (CScriptNum.getvch x.length :: x :: stack)
  | _, _ => none

def numOfBool (b : Bool) : Int :=
  if b then 1 else 0

def UnaryOp.apply (op : UnaryOp) (bn : Int) : Int :=
  match op with
  | .add1 => bn + 1
  | .sub1 => bn - 1
  | .negate => -bn
  | .abs => if bn < 0 then -bn else bn
  | .not => numOfBool (bn == 0)
  | .notEqual0 => numOfBool (bn != 0)

def BinaryOp.apply (op : BinaryOp) (bn1 bn2 : Int) : Int :=
  match op with
  | .add => bn1 + bn2
  | .sub => bn1 - bn2
  | .boolAnd => numOfBool (bn1 != 0 && bn2 != 0)
  | .boolOr => numOfBool (bn1 != 0 || bn2 != 0)
  | .numEqual | .numEqualVerify => numOfBool (bn1 == bn2)
  | .numNotEqual => numOfBool (bn1 != bn2)
  | .lessThan => numOfBool (decide (bn1 < bn2))
  | .greaterThan => numOfBool (decide (bn2 < bn1))
  | .lessThanOrEqual => numOfBool (decide (bn1 ≤ bn2))
  | .greaterThanOrEqual => numOfBool (decide (bn2 ≤ bn1))
  | .min => if bn1 < bn2 then bn1 else bn2
  | .max => if bn2 < bn1 then bn1 else bn2

def HashOp.apply (lib : ScriptLib) (op : HashOp) (vch : Bytes) : Bytes :=
  match op with
  | .ripemd160 => (lib.ripemd160 vch).toList
  | .sha1 => (lib.sha1 vch).toList
  | .sha256 => (lib.sha256 vch).toList
  | .hash160 => (lib.ripemd160 (lib.sha256 vch).toList).toList
  | .hash256 => (lib.sha256 (lib.sha256 vch).toList).toList

/-- `CScript() << vch`: the shortest operation that pushes the bytes with their length. -/
def pushOf (vch : Bytes) : CScript :=
  (if vch.length < OP_PUSHDATA1.toNat then littleEndian 1 vch.length
    else if vch.length ≤ 0xff then OP_PUSHDATA1 :: littleEndian 1 vch.length
    else if vch.length ≤ 0xffff then OP_PUSHDATA2 :: littleEndian 2 vch.length
    else OP_PUSHDATA4 :: littleEndian 4 vch.length) ++ vch

def skipCopies (b : Bytes) : Nat → CScript → CScript
  | 0, pc => pc
  | fuel + 1, pc => if b.isPrefixOf pc then skipCopies b fuel (pc.drop b.length) else pc

def findAndDeleteLoop (b : Bytes) : Nat → CScript → CScript
  | 0, pc => pc
  | fuel + 1, pc =>
    let pc2 := skipCopies b pc.length pc
    match getOp.run pc2 with
    | none => pc2
    | some (_, rest) => bytesUpTo pc2 rest ++ findAndDeleteLoop b fuel rest

/-- `FindAndDelete`: the script without the copies of `b` that start where an operation does. -/
def findAndDelete (script : CScript) (b : Bytes) : CScript :=
  if b.isEmpty then script else findAndDeleteLoop b (script.length + 1) script

/-! ## The machine -/

structure Machine where
  /-- the rest of the script, from `pc` to `pend` -/
  pc : CScript
  /-- from `pbegincodehash` to `pend` -/
  codeHash : CScript
  stack : List Bytes
  altstack : List Bytes
  vfExec : List Bool
  nOpCount : Nat
  serror : ScriptError
  /-- the calls of `CheckSig` so far -/
  nSigChecks : Nat
  deriving DecidableEq, Repr

abbrev Eval := Check Machine

namespace Machine

def fExec (m : Machine) : Bool :=
  m.vfExec.all id

def start (stack : List Bytes) (script : CScript) : Machine where
  pc := script
  codeHash := script
  stack := stack
  altstack := []
  vfExec := []
  nOpCount := 0
  serror := .unknownError
  nSigChecks := 0

end Machine

namespace Eval

variable {α : Type}

def fail (serror : ScriptError) : Eval α :=
  refuse fun m => { m with serror := serror }

def check (ok : Bool) (serror : ScriptError) : Eval Unit :=
  Check.ensure ok fun m => { m with serror := serror }

def getStack : Eval (List Bytes) := fun m => (.returned m.stack, m)

def setStack (stack : List Bytes) : Eval Unit := fun m => (.returned (), { m with stack := stack })

def checkNone : Option ScriptError → Eval Unit
  | none => pure ()
  | some serror => fail serror

/-- Replace a stack by what a computation makes of it, which fails if the stack is too short. -/
def onStack (f : List Bytes → Option (List Bytes)) : Eval Unit := do
  let stack ← getStack
  match f stack with
  | none => fail .invalidStackOperation
  | some stack' => setStack stack'

def toNum (flags : Nat) (vch : Bytes) : Eval Int :=
  require (CScriptNum.ofVch vch (hasFlag flags SCRIPT_VERIFY_MINIMALDATA)
    CScriptNum.nDefaultMaxNumSize)

def toLockTime (flags : Nat) (vch : Bytes) : Eval Int :=
  require (CScriptNum.ofVch vch (hasFlag flags SCRIPT_VERIFY_MINIMALDATA) 5)

end Eval

section Exec

open Eval

variable (lib : ScriptLib) (flags : Nat) (checker : SignatureChecker)

/-- `CHECKLOCKTIMEVERIFY` and `CHECKSEQUENCEVERIFY` without their flag. -/
def execUpgradableNop : Eval Unit :=
  check (!hasFlag flags SCRIPT_VERIFY_DISCOURAGE_UPGRADABLE_NOPS) .discourageUpgradableNops

def execCheckLockTimeVerify : Eval Unit :=
  if !hasFlag flags SCRIPT_VERIFY_CHECKLOCKTIMEVERIFY then execUpgradableNop flags
  else do
    match ← getStack with
    | [] => fail .invalidStackOperation
    | vch :: _ =>
      let nLockTime ← toLockTime flags vch
      check (!decide (nLockTime < 0)) .negativeLocktime
      check (checker.checkLockTime nLockTime) .unsatisfiedLocktime

def execCheckSequenceVerify : Eval Unit :=
  if !hasFlag flags SCRIPT_VERIFY_CHECKSEQUENCEVERIFY then execUpgradableNop flags
  else do
    match ← getStack with
    | [] => fail .invalidStackOperation
    | vch :: _ =>
      let nSequence ← toLockTime flags vch
      check (!decide (nSequence < 0)) .negativeLocktime
      -- an operand with the disable bit is left to later rules
      if nSequence.toNat.testBit 31 then pure ()
      else check (checker.checkSequence nSequence) .unsatisfiedLocktime

def execIf (negate : Bool) : Eval Unit := fun m =>
  if m.fExec then
    match m.stack with
    | [] => fail .unbalancedConditional m
    | vch :: stack =>
      if hasFlag flags SCRIPT_VERIFY_MINIMALIF && !(vch == [] || vch == [1]) then
        fail .minimalIf m
      else
        (.returned (),
          { m with stack := stack, vfExec := (castToBool vch != negate) :: m.vfExec })
  else (.returned (), { m with vfExec := false :: m.vfExec })

def execElse : Eval Unit := fun m =>
  match m.vfExec with
  | [] => fail .unbalancedConditional m
  | fValue :: vfExec => (.returned (), { m with vfExec := (!fValue) :: vfExec })

def execEndIf : Eval Unit := fun m =>
  match m.vfExec with
  | [] => fail .unbalancedConditional m
  | _ :: vfExec => (.returned (), { m with vfExec := vfExec })

/-- The value that decides goes off the stack, or the script fails. -/
def popVerified (serror : ScriptError) : Eval Unit := do
  match ← getStack with
  | [] => fail .invalidStackOperation
  | vch :: stack =>
    check (castToBool vch) serror
    setStack stack

def execToAltStack : Eval Unit := fun m =>
  match m.stack with
  | [] => fail .invalidStackOperation m
  | vch :: stack => (.returned (), { m with stack := stack, altstack := vch :: m.altstack })

def execFromAltStack : Eval Unit := fun m =>
  match m.altstack with
  | [] => fail .invalidAltstackOperation m
  | vch :: altstack => (.returned (), { m with stack := vch :: m.stack, altstack := altstack })

def execPick (roll : Bool) : Eval Unit := do
  match ← getStack with
  | vch :: x :: stack =>
    let n := CScriptNum.getInt (← toNum flags vch)
    setStack (x :: stack)
    check (!(decide (n < 0) || decide (((x :: stack).length : Int) ≤ n))) .invalidStackOperation
    let vch ← require (x :: stack)[n.toNat]?
    setStack (vch :: if roll then (x :: stack).eraseIdx n.toNat else x :: stack)
  | _ => fail .invalidStackOperation

def execEqual (verify : Bool) : Eval Unit := do
  match ← getStack with
  | vch2 :: vch1 :: stack =>
    setStack (vchOfBool (vch1 == vch2) :: stack)
    if verify then popVerified .equalVerify else pure ()
  | _ => fail .invalidStackOperation

def execUnary (op : UnaryOp) : Eval Unit := do
  match ← getStack with
  | vch :: stack =>
    let bn ← toNum flags vch
    setStack (CScriptNum.getvch (op.apply bn) :: stack)
  | _ => fail .invalidStackOperation

def execBinary (op : BinaryOp) : Eval Unit := do
  match ← getStack with
  | vch2 :: vch1 :: stack =>
    let bn1 ← toNum flags vch1
    let bn2 ← toNum flags vch2
    setStack (CScriptNum.getvch (op.apply bn1 bn2) :: stack)
    if op = .numEqualVerify then popVerified .numEqualVerify else pure ()
  | _ => fail .invalidStackOperation

def execWithin : Eval Unit := do
  match ← getStack with
  | vch3 :: vch2 :: vch1 :: stack =>
    let bn1 ← toNum flags vch1
    let bn2 ← toNum flags vch2
    let bn3 ← toNum flags vch3
    setStack (vchOfBool (decide (bn2 ≤ bn1) && decide (bn1 < bn3)) :: stack)
  | _ => fail .invalidStackOperation

def execHash (op : HashOp) : Eval Unit :=
  onStack fun
    | vch :: stack => some (op.apply lib vch :: stack)
    | [] => none

def execCodeSeparator : Eval Unit := fun m => (.returned (), { m with codeHash := m.pc })

def getCodeHash : Eval CScript := fun m => (.returned m.codeHash, m)

def callCheckSig (vchSig vchPubKey : Bytes) (scriptCode : CScript) : Eval Bool := do
  checkNone (checkSignatureEncoding lib flags vchSig)
  checkNone (checkPubKeyEncoding flags vchPubKey)
  fun m => (.returned (checker.checkSig vchSig vchPubKey scriptCode),
    { m with nSigChecks := m.nSigChecks + 1 })

def execCheckSig (verify : Bool) : Eval Unit := do
  match ← getStack with
  | vchPubKey :: vchSig :: stack =>
    let scriptCode := findAndDelete (← getCodeHash) (pushOf vchSig)
    let fSuccess ← callCheckSig lib flags checker vchSig vchPubKey scriptCode
    check (!(!fSuccess && hasFlag flags SCRIPT_VERIFY_NULLFAIL && !vchSig.isEmpty)) .sigNullFail
    setStack (vchOfBool fSuccess :: stack)
    if verify then popVerified .checkSigVerify else pure ()
  | _ => fail .invalidStackOperation

/-- The loop of `CHECKMULTISIG`: every signature needs a key that comes after the key of the one
before. It ends early when more signatures than keys are left. -/
def checkMultiSigLoop (scriptCode : CScript) : List Bytes → List Bytes → Eval Bool
  | _, [] => pure true
  | [], _ :: _ => pure false
  | vchPubKey :: keys, vchSig :: sigs => do
    let fOk ← callCheckSig lib flags checker vchSig vchPubKey scriptCode
    let sigs' := if fOk then sigs else vchSig :: sigs
    if keys.length < sigs'.length then pure false else checkMultiSigLoop scriptCode keys sigs'

def countKeys (nKeysCount : Nat) : Eval Unit := do
  fun m => (.returned (), { m with nOpCount := m.nOpCount + nKeysCount })
  fun m => check (decide (m.nOpCount ≤ MAX_OPS_PER_SCRIPT)) .opCount m

/-- The end of `CHECKMULTISIG`: the arguments and one more value are removed. -/
def finishMultiSig (verify fSuccess : Bool) (sigs stack : List Bytes) : Eval Unit := do
  check (!(!fSuccess && hasFlag flags SCRIPT_VERIFY_NULLFAIL && sigs.any (!·.isEmpty))) .sigNullFail
  match stack with
  | [] => fail .invalidStackOperation
  | dummy :: stack =>
    check (!(hasFlag flags SCRIPT_VERIFY_NULLDUMMY && !dummy.isEmpty)) .sigNullDummy
    setStack (vchOfBool fSuccess :: stack)
    if verify then popVerified .checkMultiSigVerify else pure ()

/-- `CHECKMULTISIG` after the keys have been counted. -/
def execMultiSigKeys (verify : Bool) (nKeysCount : Nat) (stack : List Bytes) : Eval Unit := do
  let keys := stack.take nKeysCount
  match stack.drop nKeysCount with
  | [] => fail .invalidStackOperation
  | vch :: stack =>
    let nSigsCount := CScriptNum.getInt (← toNum flags vch)
    check (!(decide (nSigsCount < 0) || decide ((nKeysCount : Int) < nSigsCount))) .sigCount
    let sigs := stack.take nSigsCount.toNat
    check (decide (nSigsCount.toNat < stack.length)) .invalidStackOperation
    let scriptCode := sigs.foldl (fun code vchSig => findAndDelete code (pushOf vchSig))
      (← getCodeHash)
    let fSuccess ← checkMultiSigLoop lib flags checker scriptCode keys sigs
    finishMultiSig flags verify fSuccess sigs (stack.drop nSigsCount.toNat)

def execCheckMultiSig (verify : Bool) : Eval Unit := do
  match ← getStack with
  | [] => fail .invalidStackOperation
  | vch :: stack =>
    let nKeysCount := CScriptNum.getInt (← toNum flags vch)
    check (!(decide (nKeysCount < 0) || decide ((MAX_PUBKEYS_PER_MULTISIG : Int) < nKeysCount)))
      .pubkeyCount
    countKeys nKeysCount.toNat
    execMultiSigKeys lib flags checker verify nKeysCount.toNat stack

def execOp : Op → Eval Unit
  | .number n => onStack fun stack => some (CScriptNum.getvch n :: stack)
  | .nop => pure ()
  | .checkLockTimeVerify => execCheckLockTimeVerify flags checker
  | .checkSequenceVerify => execCheckSequenceVerify flags checker
  | .nopN => execUpgradableNop flags
  | .ifThen negate => execIf flags negate
  | .ifElse => execElse
  | .endIf => execEndIf
  | .verify => popVerified .verify
  | .opReturn => fail .opReturn
  | .toAltStack => execToAltStack
  | .fromAltStack => execFromAltStack
  | .stack op => onStack op.apply
  | .pick roll => execPick flags roll
  | .equal verify => execEqual verify
  | .unary op => execUnary flags op
  | .binary op => execBinary flags op
  | .within => execWithin flags
  | .hash op => execHash lib op
  | .codeSeparator => execCodeSeparator
  | .checkSig verify => execCheckSig lib flags checker verify
  | .checkMultiSig verify => execCheckMultiSig lib flags checker verify
  | .badOpcode => fail .badOpcode

/-- `++nOpCount > MAX_OPS_PER_SCRIPT`, for the opcodes that count. -/
def countOp (opcode : UInt8) : Eval Unit :=
  if OP_16 < opcode then countKeys 1 else pure ()

/-- An operation in a branch that is executed, or one that opens, switches or closes a branch. -/
def execOpcode (opcode : UInt8) (vchPushValue : Bytes) : Eval Unit := fun m =>
  if m.fExec && decide (opcode ≤ OP_PUSHDATA4) then
    (do
      check (!(hasFlag flags SCRIPT_VERIFY_MINIMALDATA && !checkMinimalPush vchPushValue opcode))
        .minimalData
      onStack fun stack => some (vchPushValue :: stack) : Eval Unit) m
  else if m.fExec || (decide (OP_IF ≤ opcode) && decide (opcode ≤ OP_ENDIF)) then
    execOp lib flags checker (opOf opcode) m
  else (.returned (), m)

def nextOp : Eval (UInt8 × Bytes) := fun m =>
  match getOp.run m.pc with
  | none => fail .badOpcode m
  | some (op, pc) => (.returned op, { m with pc := pc })

def checkStackSize : Eval Unit := fun m =>
  check (decide (m.stack.length + m.altstack.length ≤ 1000)) .stackSize m

def evalOp : Eval Unit := do
  let (opcode, vchPushValue) ← nextOp
  check (decide (vchPushValue.length ≤ MAX_SCRIPT_ELEMENT_SIZE)) .pushSize
  countOp opcode
  check (!disabledOpcodes.contains opcode) .disabledOpcode
  execOpcode lib flags checker opcode vchPushValue
  checkStackSize

def evalLoop : Nat → Eval Unit
  | 0 => pure ()
  | fuel + 1 => fun m =>
    if m.pc.isEmpty then (.returned (), m)
    else (do
      evalOp lib flags checker
      evalLoop fuel : Eval Unit) m

def checkBalanced : Eval Unit := fun m =>
  check m.vfExec.isEmpty .unbalancedConditional m

def catchAll (x : Eval Unit) : Eval Unit := fun m =>
  match x m with
  | (.halted, m') => (.refused, { m' with serror := .unknownError })
  | r => r

/-- `EvalScript`: how it ends, and the state it leaves. -/
def evalScript (stack : List Bytes) (script : CScript) : Outcome Unit × Machine :=
  (do
    check (decide (script.length ≤ MAX_SCRIPT_SIZE)) .scriptSize
    catchAll (evalLoop lib flags checker script.length)
    checkBalanced : Eval Unit) (.start stack script)

/-! ## Verification -/

def runScript (stack : List Bytes) (script : CScript) : Check ScriptError (List Bytes) := fun _ =>
  match evalScript lib flags checker stack script with
  | (.returned _, m) => (.returned m.stack, .ok)
  | (_, m) => (.refused, m.serror)

def topIsTrue (stack : List Bytes) : Bool :=
  match stack with
  | [] => false
  | vch :: _ => castToBool vch

/-- The part of `VerifyScript` for pay-to-script-hash, on the stack that the script of the input
has left. -/
def verifyRedeemScript (scriptSig : CScript) (stackCopy : List Bytes) :
    Check ScriptError (List Bytes) := do
  ensure (isPushOnly scriptSig.length scriptSig) fun _ => .sigPushOnly
  match stackCopy with
  | [] => halt
  | pubKey2 :: stack =>
    let stack ← runScript lib flags checker stack pubKey2
    ensure (topIsTrue stack) fun _ => .evalFalse
    pure stack

/-- The additional validation for spend-to-script-hash: the stack that counts after it. -/
def verifyP2SH (scriptSig scriptPubKey : CScript) (stackCopy stack : List Bytes) :
    Check ScriptError (List Bytes) :=
  if hasFlag flags SCRIPT_VERIFY_P2SH && isPayToScriptHash scriptPubKey then
    verifyRedeemScript lib flags checker scriptSig stackCopy
  else pure stack

def verifyCleanStack (stack : List Bytes) : Check ScriptError Unit :=
  if hasFlag flags SCRIPT_VERIFY_CLEANSTACK then do
    demand (hasFlag flags SCRIPT_VERIFY_P2SH)
    ensure (decide (stack.length = 1)) fun _ => .cleanStack
  else pure ()

def verifyScript (scriptSig scriptPubKey : CScript) : Check ScriptError Unit := do
  ensure (!hasFlag flags SCRIPT_VERIFY_SIGPUSHONLY || isPushOnly scriptSig.length scriptSig)
    fun _ => .sigPushOnly
  let stackCopy ← runScript lib flags checker [] scriptSig
  let stack ← runScript lib flags checker stackCopy scriptPubKey
  ensure (topIsTrue stack) fun _ => .evalFalse
  let stack ← verifyP2SH lib flags checker scriptSig scriptPubKey stackCopy stack
  verifyCleanStack flags stack

def acceptsScript (scriptSig scriptPubKey : CScript) : Bool :=
  (verifyScript lib flags checker scriptSig scriptPubKey .unknownError).1.isReturned

end Exec

/-! ## Runs that succeed -/

lemma catchAll_eq_returned {x : Eval Unit} {m m' : Machine} {u : Unit} :
    catchAll x m = (.returned u, m') ↔ x m = (.returned u, m') := by
  unfold catchAll
  rcases x m with ⟨b | _ | _, m₁⟩ <;> simp

lemma runScript_eq_returned {lib : ScriptLib} {flags : Nat} {checker : SignatureChecker}
    {stack stack' : List Bytes} {script : CScript} {s s' : ScriptError} :
    runScript lib flags checker stack script s = (.returned stack', s') ↔
      ∃ m, evalScript lib flags checker stack script = (.returned (), m) ∧ m.stack = stack' ∧
        ScriptError.ok = s' := by
  unfold runScript
  rcases evalScript lib flags checker stack script with ⟨u | _ | _, m⟩ <;> simp

/-! ## Sample surroundings -/

def toyScriptLib : ScriptLib where
  ripemd160 _ := .replicate 20 0
  sha1 _ := .replicate 20 0
  sha256 _ := .replicate 32 0
  checkLowS _ := true

/-- Every signature is valid, and lock times have passed up to a limit. -/
def toyChecker (limit : Int) : SignatureChecker where
  checkSig _ _ _ := true
  checkLockTime n := decide (n ≤ limit)
  checkSequence n := decide (n ≤ limit)

end Jumpcoin
