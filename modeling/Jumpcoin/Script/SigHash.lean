import Jumpcoin.Primitives.Block
import Jumpcoin.Script.Script

/-!
# Signature hashes

`SignatureHash` of `script/interpreter.cpp`. The source does not copy the transaction that is
signed: a serializer leaves out or replaces, while it writes, what the hash type excludes.
`sigHashCopy` is the copy that it avoids. What is hashed is the copy and the hash type, so with
`SIGHASH_ALL` a signature hash fixes everything in a transaction but the scripts of its inputs.
-/

namespace Jumpcoin

open Codec List Option

def OP_CODESEPARATOR : UInt8 := 0xab

def SIGHASH_ALL : UInt32 := 1
def SIGHASH_NONE : UInt32 := 2
def SIGHASH_SINGLE : UInt32 := 3
def SIGHASH_ANYONECANPAY : UInt32 := 0x80

/-! ## The serializer -/

/-- The constructor's view of the hash type. -/
structure HashMode where
  fAnyoneCanPay : Bool
  fHashSingle : Bool
  fHashNone : Bool
  deriving DecidableEq

def hashMode (nHashType : Int32) : HashMode where
  fAnyoneCanPay := nHashType.toUInt32 &&& SIGHASH_ANYONECANPAY != 0
  fHashSingle := nHashType.toUInt32 &&& 0x1f == SIGHASH_SINGLE
  fHashNone := nHashType.toUInt32 &&& 0x1f == SIGHASH_NONE

/-- Where `GetOp` leaves the iterator when it fails. -/
def getOpStop : CScript → CScript
  | [] => []
  | opcode :: pc =>
    if opcode = OP_PUSHDATA1 then pc.drop 1
    else if opcode = OP_PUSHDATA2 then if pc.length < 2 then pc else pc.drop 2
    else if opcode = OP_PUSHDATA4 then if pc.length < 4 then pc else pc.drop 4
    else pc

def countCodeSeparators : Nat → CScript → Nat
  | 0, _ => 0
  | fuel + 1, it =>
    match getOp.run it with
    | none => 0
    | some ((opcode, _), it') =>
      (if opcode = OP_CODESEPARATOR then 1 else 0) + countCodeSeparators fuel it'

def bytesUpTo (itBegin it : CScript) : Bytes :=
  itBegin.take (itBegin.length - it.length)

def writeBetweenSeparators : Nat → CScript → CScript → Bytes
  | 0, itBegin, it => bytesUpTo itBegin it
  | fuel + 1, itBegin, it =>
    match getOp.run it with
    | none => if itBegin.isEmpty then [] else bytesUpTo itBegin (getOpStop it)
    | some ((opcode, _), it') =>
      if opcode = OP_CODESEPARATOR then
        itBegin.take (itBegin.length - it'.length - 1) ++ writeBetweenSeparators fuel it' it'
      else writeBetweenSeparators fuel itBegin it'

def serializeScriptCode (scriptCode : CScript) : Bytes :=
  writeCompactSize (scriptCode.length - countCodeSeparators scriptCode.length scriptCode) ++
    writeBetweenSeparators scriptCode.length scriptCode scriptCode

/-- `SerializeInput`. `SignatureHash` has checked that the input exists. -/
def serializeInput (txTo : CTransaction) (scriptCode : CScript) (nIn : UInt32) (mode : HashMode)
    (nInput : Nat) : Bytes :=
  let nInput := if mode.fAnyoneCanPay then nIn.toNat else nInput
  match txTo.vin[nInput]? with
  | none => []
  | some txin =>
    txin.prevout.serialize ++
      ((if nInput ≠ nIn.toNat then writeByteVector [] else serializeScriptCode scriptCode) ++
        if nInput ≠ nIn.toNat ∧ (mode.fHashSingle || mode.fHashNone) then writeInt32 0
        else writeUInt32 txin.nSequence)

def serializeOutput (txTo : CTransaction) (nIn : UInt32) (mode : HashMode) (nOutput : Nat) :
    Bytes :=
  if mode.fHashSingle ∧ nOutput ≠ nIn.toNat then CTxOut.null.serialize
  else
    match txTo.vout[nOutput]? with
    | none => []
    | some txout => txout.serialize

def serializeForSignature (txTo : CTransaction) (scriptCode : CScript) (nIn : UInt32)
    (mode : HashMode) : Bytes :=
  let nInputs : UInt32 := if mode.fAnyoneCanPay then 1 else UInt32.ofNat txTo.vin.length
  let nOutputs : UInt32 :=
    if mode.fHashNone then 0
    else if mode.fHashSingle then nIn + 1 else UInt32.ofNat txTo.vout.length
  writeInt32 txTo.nVersion ++ ((if txTo.nVersion < 2 then writeUInt32 txTo.nTime else []) ++
    (writeCompactSize nInputs.toNat ++
      ((List.range nInputs.toNat).flatMap (serializeInput txTo scriptCode nIn mode) ++
        (writeCompactSize nOutputs.toNat ++
          ((List.range nOutputs.toNat).flatMap (serializeOutput txTo nIn mode) ++
            writeUInt32 txTo.nLockTime)))))

/-- The bytes that `SignatureHash` hashes; no value where it returns the number one instead. -/
def signatureHashBytes (scriptCode : CScript) (txTo : CTransaction) (nIn : UInt32)
    (nHashType : Int32) : Option Bytes :=
  if txTo.vin.length ≤ nIn.toNat then none
  else if (hashMode nHashType).fHashSingle ∧ txTo.vout.length ≤ nIn.toNat then none
  else some (serializeForSignature txTo scriptCode nIn (hashMode nHashType) ++ writeInt32 nHashType)

def signatureHash (hashes : Hashes) (scriptCode : CScript) (txTo : CTransaction) (nIn : UInt32)
    (nHashType : Int32) : Uint256 :=
  match signatureHashBytes scriptCode txTo nIn nHashType with
  | none => 1
  | some bytes => hashes.hash256 bytes

/-! ## The copy -/

/-- The operations of a script that parses completely, each with the bytes it takes. -/
def operations : Nat → CScript → Option (List (UInt8 × Bytes))
  | 0, script => if script.isEmpty then some [] else none
  | fuel + 1, script =>
    if script.isEmpty then some []
    else
      match getOp.run script with
      | none => none
      | some ((opcode, _), rest) =>
        (operations fuel rest).map ((opcode, bytesUpTo script rest) :: ·)

def parses (script : CScript) : Bool :=
  (operations script.length script).isSome

def isSeparator (op : UInt8 × Bytes) : Bool :=
  op.1 == OP_CODESEPARATOR

def eraseCodeSeparators (script : CScript) : CScript :=
  match operations script.length script with
  | none => script
  | some ops => (ops.filter (!isSeparator ·)).flatMap Prod.snd

/-- An input of the copy: the script is that of the spent output for the input that is signed, and
empty for the others. -/
def copyInput (scriptCode : CScript) (nIn : Nat) (mode : HashMode) (nInput : Nat) (txin : CTxIn) :
    CTxIn :=
  if nInput = nIn then { txin with scriptSig := eraseCodeSeparators scriptCode }
  else
    { txin with
      scriptSig := []
      nSequence := if mode.fHashSingle || mode.fHashNone then 0 else txin.nSequence }

def sigHashCopy (txTo : CTransaction) (scriptCode : CScript) (nIn : Nat) (mode : HashMode) :
    CTransaction :=
  let vin := txTo.vin.mapIdx (copyInput scriptCode nIn mode)
  { txTo with
    vin := if mode.fAnyoneCanPay then (vin.drop nIn).take 1 else vin
    vout :=
      if mode.fHashNone then []
      else if mode.fHashSingle then
        (txTo.vout.take (nIn + 1)).mapIdx fun nOutput txout =>
          if nOutput = nIn then txout else CTxOut.null
      else txTo.vout }

/-! ## Code separators -/

lemma bytesUpTo_append (bytes it : CScript) : bytesUpTo (bytes ++ it) it = bytes := by
  simp [bytesUpTo]

variable {ops : List (UInt8 × Bytes)} {script : CScript} {fuel : Nat} {scriptCode : CScript}

lemma operations_zero (h : operations 0 script = some ops) : script = [] ∧ ops = [] := by
  simp only [operations, List.isEmpty_iff, ite_none_right_eq_some, some.injEq] at h
  exact ⟨h.1, h.2.symm⟩

lemma operations_succ (h : operations (fuel + 1) script = some ops) : script = [] ∧ ops = [] ∨
    ∃ opcode data rest ops', getOp.run script = some ((opcode, data), rest) ∧
      operations fuel rest = some ops' ∧ ops = (opcode, bytesUpTo script rest) :: ops' := by
  unfold operations at h
  split_ifs at h with hempty
  · exact .inl ⟨isEmpty_iff.mp hempty, by simp_all⟩
  · split at h
    · contradiction
    · rename_i opcode data rest hop
      obtain ⟨ops', hops, rfl⟩ := map_eq_some_iff.mp h
      exact .inr ⟨opcode, data, rest, ops', hop, hops, rfl⟩

/-- A parsed script is its operations put together again, and a separator takes one byte. -/
lemma operations_bytes (h : operations fuel script = some ops) :
    script = ops.flatMap Prod.snd ∧ ∀ op ∈ ops, isSeparator op → op.2.length = 1 := by
  induction fuel generalizing script ops with
  | zero =>
    obtain ⟨rfl, rfl⟩ := operations_zero h
    simp
  | succ fuel ih =>
    obtain ⟨rfl, rfl⟩ | ⟨opcode, data, rest, ops', hop, hops, rfl⟩ := operations_succ h
    · simp
    · obtain ⟨operand, rfl, hoperand⟩ := getOp_run hop
      obtain ⟨hbytes, hone⟩ := ih hops
      rw [← cons_append, bytesUpTo_append]
      refine ⟨by rw [flatMap_cons, ← hbytes], ?_⟩
      intro op hmem hsep
      rcases mem_cons.mp hmem with rfl | hmem
      · obtain rfl : opcode = OP_CODESEPARATOR := by simpa [isSeparator] using hsep
        simp [(hoperand (by decide)).1]
      · exact hone op hmem hsep

lemma countCodeSeparators_eq (h : operations fuel script = some ops) :
    countCodeSeparators fuel script = (ops.filter isSeparator).length := by
  induction fuel generalizing script ops with
  | zero => simp [countCodeSeparators, (operations_zero h).2]
  | succ fuel ih =>
    obtain ⟨rfl, rfl⟩ | ⟨opcode, data, rest, ops', hop, hops, rfl⟩ := operations_succ h
    · rfl
    · simp only [countCodeSeparators, hop, ih hops, filter_cons, isSeparator, beq_iff_eq]
      split_ifs <;> simp [Nat.add_comm]

/-- The second loop writes the bytes it has passed and not written yet, and then those of the
operations to come that are no separators. -/
lemma writeBetweenSeparators_eq {it : CScript} (h : operations fuel it = some ops)
    (passed : Bytes) :
    writeBetweenSeparators fuel (passed ++ it) it =
      passed ++ (ops.filter (!isSeparator ·)).flatMap Prod.snd := by
  induction fuel generalizing it ops passed with
  | zero =>
    obtain ⟨rfl, rfl⟩ := operations_zero h
    simp [writeBetweenSeparators, bytesUpTo]
  | succ fuel ih =>
    obtain ⟨rfl, rfl⟩ | ⟨opcode, data, rest, ops', hop, hops, rfl⟩ := operations_succ h
    · simp [writeBetweenSeparators, getOp_nil, getOpStop, bytesUpTo]
    · simp only [writeBetweenSeparators, hop]
      obtain ⟨operand, rfl, hoperand⟩ := getOp_run hop
      rw [← cons_append, bytesUpTo_append]
      split_ifs with hsep
      · obtain ⟨rfl, -⟩ := hoperand (by rw [hsep]; decide)
        have hwrite := ih hops []
        rw [nil_append, nil_append] at hwrite
        have hlength : passed.length + (rest.length + 1) - rest.length - 1 = passed.length := by
          omega
        rw [hwrite, filter_cons_of_neg (by simp [isSeparator, hsep])]
        simp [hlength]
      · have hwrite := ih hops (passed ++ opcode :: operand)
        rw [append_assoc] at hwrite
        rw [hwrite, filter_cons_of_pos (by simp [isSeparator, hsep])]
        simp

/-- Every separator takes a byte of the script with it. -/
lemma length_eraseCodeSeparators (h : parses script = true) :
    (eraseCodeSeparators script).length =
      script.length - countCodeSeparators script.length script := by
  have hlength : ∀ ops : List (UInt8 × Bytes),
      (∀ op ∈ ops, isSeparator op → op.2.length = 1) →
        (ops.flatMap Prod.snd).length =
          (ops.filter isSeparator).length +
            ((ops.filter (!isSeparator ·)).flatMap Prod.snd).length := by
    intro ops hone
    induction ops with
    | nil => rfl
    | cons op ops ih =>
      cases hsep : isSeparator op <;> simp_all <;> omega
  obtain ⟨ops, hops⟩ := isSome_iff_exists.mp h
  obtain ⟨hbytes, hone⟩ := operations_bytes hops
  have hcount := hlength ops hone
  rw [← hbytes] at hcount
  rw [countCodeSeparators_eq hops]
  simp only [eraseCodeSeparators, hops]
  omega

/-- The script that is signed, written as a script without separators. -/
lemma serializeScriptCode_eq (h : parses scriptCode = true) :
    serializeScriptCode scriptCode = writeByteVector (eraseCodeSeparators scriptCode) := by
  obtain ⟨ops, hops⟩ := isSome_iff_exists.mp h
  have hwrite := writeBetweenSeparators_eq hops []
  simp only [nil_append] at hwrite
  rw [serializeScriptCode, ← length_eraseCodeSeparators h, hwrite, writeByteVector]
  simp only [eraseCodeSeparators, hops]

/-! ## The bytes that are hashed -/

/-- A loop over the positions of a list that writes what stands there. -/
lemma flatMap_range {α : Type} {l : List α} {n : Nat} {f : Nat → Bytes} {write : α → Bytes}
    (hn : n = l.length) (h : ∀ i a, l[i]? = some a → f i = write a) :
    (List.range n).flatMap f = l.flatMap write := by
  subst hn
  rw [flatMap_def, flatMap_def]
  congr 1
  refine ext_getElem (by simp) fun i hi hi' => ?_
  simpa using h i _ (getElem?_eq_getElem (by simpa using hi))

section Bytes

variable {txTo : CTransaction} {scriptCode : CScript} {nIn : UInt32} {mode : HashMode}

lemma serializeInput_eq (hparses : parses scriptCode = true) {nInput i : Nat} {txin : CTxIn}
    (hi : txTo.vin[i]? = some txin) (heq : (if mode.fAnyoneCanPay then nIn.toNat else nInput) = i) :
    serializeInput txTo scriptCode nIn mode nInput =
      (copyInput scriptCode nIn.toNat mode i txin).serialize := by
  simp only [serializeInput, heq, hi]
  unfold copyInput CTxIn.serialize
  by_cases hsigned : i = nIn.toNat
  · simp [hsigned, serializeScriptCode_eq hparses]
  · by_cases hblank : (mode.fHashSingle || mode.fHashNone) = true
    · have hzero : writeInt32 0 = writeUInt32 0 := by decide
      simp [hsigned, hblank, hzero]
    · simp [hsigned, hblank]

lemma inputs_eq (mode : HashMode) (htx : txTo.Countable) (hin : nIn.toNat < txTo.vin.length)
    (hparses : parses scriptCode = true) :
    let nInputs : UInt32 := if mode.fAnyoneCanPay then 1 else UInt32.ofNat txTo.vin.length
    writeCompactSize nInputs.toNat ++
        (List.range nInputs.toNat).flatMap (serializeInput txTo scriptCode nIn mode) =
      writeVector CTxIn.serialize (sigHashCopy txTo scriptCode nIn.toNat mode).vin := by
  intro nInputs
  have hsize : nInputs.toNat = (sigHashCopy txTo scriptCode nIn.toNat mode).vin.length := by
    simp only [nInputs, sigHashCopy]
    split_ifs
    · simp only [length_take, length_drop, length_mapIdx]
      have : (1 : UInt32).toNat = 1 := rfl
      omega
    · simpa using Nat.mod_eq_of_lt htx.vin
  rw [writeVector, flatMap_range hsize, hsize]
  intro i txin' hi
  simp only [sigHashCopy] at hi
  split_ifs at hi with hmode
  · simp only [getElem?_take, getElem?_drop, getElem?_mapIdx] at hi
    split_ifs at hi with hzero
    obtain rfl : i = 0 := by omega
    obtain ⟨txin, htxin, rfl⟩ := map_eq_some_iff.mp hi
    exact serializeInput_eq hparses htxin (by simp [hmode])
  · rw [getElem?_mapIdx] at hi
    obtain ⟨txin, htxin, rfl⟩ := map_eq_some_iff.mp hi
    exact serializeInput_eq hparses htxin (by simp [hmode])

lemma outputs_eq (scriptCode : CScript) (htx : txTo.Countable)
    (hout : mode.fHashSingle = true → nIn.toNat < txTo.vout.length) :
    let nOutputs : UInt32 := if mode.fHashNone then 0
      else if mode.fHashSingle then nIn + 1 else UInt32.ofNat txTo.vout.length
    writeCompactSize nOutputs.toNat ++
        (List.range nOutputs.toNat).flatMap (serializeOutput txTo nIn mode) =
      writeVector CTxOut.serialize (sigHashCopy txTo scriptCode nIn.toNat mode).vout := by
  intro nOutputs
  have hvout := htx.vout
  have hsize : nOutputs.toNat = (sigHashCopy txTo scriptCode nIn.toNat mode).vout.length := by
    simp only [nOutputs, sigHashCopy]
    split_ifs with hnone hsingle
    · rfl
    · have hlt := hout hsingle
      have hnext : (nIn + 1).toNat = nIn.toNat + 1 := by
        rw [UInt32.toNat_add]
        exact Nat.mod_eq_of_lt (lt_of_le_of_lt hlt hvout)
      simp only [length_mapIdx, length_take, hnext]
      omega
    · simpa using Nat.mod_eq_of_lt hvout
  rw [writeVector, flatMap_range hsize, hsize]
  intro i txout hi
  simp only [sigHashCopy] at hi
  split_ifs at hi with hnone hsingle
  · simp at hi
  · rw [getElem?_mapIdx, getElem?_take] at hi
    obtain ⟨txout', htxout, rfl⟩ := map_eq_some_iff.mp hi
    obtain ⟨-, htxout⟩ := ite_none_right_eq_some.mp htxout
    by_cases hsigned : i = nIn.toNat
    · subst hsigned
      simp [serializeOutput, htxout]
    · simp [serializeOutput, hsingle, hsigned]
  · simp [serializeOutput, hsingle, hi]

lemma serializeForSignature_eq (htx : txTo.Countable) (hin : nIn.toNat < txTo.vin.length)
    (hout : mode.fHashSingle = true → nIn.toNat < txTo.vout.length)
    (hparses : parses scriptCode = true) :
    serializeForSignature txTo scriptCode nIn mode =
      (sigHashCopy txTo scriptCode nIn.toNat mode).serialize := by
  have hins := inputs_eq mode htx hin hparses
  have houts := outputs_eq scriptCode htx hout
  unfold serializeForSignature CTransaction.serialize
  rw [← hins, ← houts]
  simp only [append_assoc]
  rfl

end Bytes

/-! ## Commitment -/

/-- The hash types that leave nothing out, `SIGHASH_ALL` among them. -/
def HashMode.all : HashMode where
  fAnyoneCanPay := false
  fHashSingle := false
  fHashNone := false

/-- A signature as the interpreter checks it: an existing input, with an output at its position if
the hash type needs one, and a script that parses. -/
structure SigHashInput (scriptCode : CScript) (txTo : CTransaction) (nIn : UInt32)
    (nHashType : Int32) : Prop where
  countable : txTo.Countable
  input : nIn.toNat < txTo.vin.length
  output : (hashMode nHashType).fHashSingle = true → nIn.toNat < txTo.vout.length
  parses : parses scriptCode = true
  scriptCode : scriptCode.length < 2 ^ 32

variable {nHashType : Int32} {txTo : CTransaction} {nIn : UInt32}

lemma SigHashInput.bytes (h : SigHashInput scriptCode txTo nIn nHashType) :
    signatureHashBytes scriptCode txTo nIn nHashType =
      some ((sigHashCopy txTo scriptCode nIn.toNat (hashMode nHashType)).serialize ++
        writeInt32 nHashType) := by
  unfold signatureHashBytes
  have hsingle : ¬((hashMode nHashType).fHashSingle ∧ txTo.vout.length ≤ nIn.toNat) :=
    fun hnone => Nat.not_le.mpr (h.output hnone.1) hnone.2
  rw [if_neg (Nat.not_le.mpr h.input), if_neg hsingle,
    serializeForSignature_eq h.countable h.input h.output h.parses]

/-- With nothing left out, the copy differs in the scripts of the inputs only. -/
lemma sigHashCopy_all (txTo : CTransaction) (scriptCode : CScript) (nIn : Nat) :
    let copy := sigHashCopy txTo scriptCode nIn .all
    copy.vin.map CTxIn.prevout = txTo.vin.map CTxIn.prevout ∧
      copy.vin.map CTxIn.nSequence = txTo.vin.map CTxIn.nSequence ∧ copy.vout = txTo.vout := by
  refine ⟨?_, ?_, rfl⟩
  all_goals
    refine ext_getElem (by simp [sigHashCopy, HashMode.all]) fun i hi hi' => ?_
    simp only [sigHashCopy, HashMode.all, copyInput, Bool.false_eq_true, if_false, Bool.or_self,
      getElem_map, getElem_mapIdx]
    split_ifs <;> rfl

lemma SigHashInput.copy_countable (h : SigHashInput scriptCode txTo nIn nHashType) :
    (sigHashCopy txTo scriptCode nIn.toNat .all).Countable where
  vin := by simpa [sigHashCopy, HashMode.all] using h.countable.vin
  scriptSig := by
    intro txin htxin
    simp only [sigHashCopy, HashMode.all, Bool.false_eq_true, if_false, mem_mapIdx] at htxin
    obtain ⟨i, hi, rfl⟩ := htxin
    unfold copyInput
    split_ifs
    · have hlength := length_eraseCodeSeparators h.parses
      have hcode := h.scriptCode
      simp only
      omega
    all_goals simp
  vout := h.countable.vout
  scriptPubKey := h.countable.scriptPubKey

/-- The bytes hashed for a signature are the modified copy and the hash type, and so two
transactions with the same `SIGHASH_ALL` hash differ, unless the hash collides, in the scripts of
their inputs and in a time that is not serialized only. -/
theorem signatureHash_commits (hashes : Hashes) {scriptCode : CScript} {txTo : CTransaction}
    {nIn : UInt32} {nHashType : Int32} (h : SigHashInput scriptCode txTo nIn nHashType) :
    let bytes := (sigHashCopy txTo scriptCode nIn.toNat (hashMode nHashType)).serialize ++
      writeInt32 nHashType
    signatureHashBytes scriptCode txTo nIn nHashType = some bytes ∧
      signatureHash hashes scriptCode txTo nIn nHashType = hashes.hash256 bytes ∧
      (hashMode nHashType = .all →
        ∀ scriptCode' txTo' nIn' nHashType', SigHashInput scriptCode' txTo' nIn' nHashType' →
          hashMode nHashType' = .all →
          (∀ bytes' ∈ signatureHashBytes scriptCode' txTo' nIn' nHashType',
            hashes.hash256 bytes = hashes.hash256 bytes' → bytes = bytes') →
          signatureHash hashes scriptCode txTo nIn nHashType =
            signatureHash hashes scriptCode' txTo' nIn' nHashType' →
          txTo.nVersion = txTo'.nVersion ∧ (txTo.nVersion < 2 → txTo.nTime = txTo'.nTime) ∧
            txTo.vin.map CTxIn.prevout = txTo'.vin.map CTxIn.prevout ∧
            txTo.vin.map CTxIn.nSequence = txTo'.vin.map CTxIn.nSequence ∧
            txTo.vout = txTo'.vout ∧ txTo.nLockTime = txTo'.nLockTime) := by
  intro bytes
  have hhash : ∀ {scriptCode txTo nIn nHashType}, SigHashInput scriptCode txTo nIn nHashType →
      signatureHash hashes scriptCode txTo nIn nHashType =
        hashes.hash256 ((sigHashCopy txTo scriptCode nIn.toNat (hashMode nHashType)).serialize ++
          writeInt32 nHashType) := by
    intro scriptCode txTo nIn nHashType h
    simp only [signatureHash, h.bytes]
  refine ⟨h.bytes, hhash h, ?_⟩
  intro hall scriptCode' txTo' nIn' nHashType' h' hall' hcollision heq
  rw [hhash h, hhash h'] at heq
  have hbytes := hcollision _ h'.bytes heq
  simp only [bytes, hall, hall'] at hbytes
  obtain ⟨hversion, htime, hvin, hvout, hlock, -⟩ :=
    CTransaction.serialize_determines h.copy_countable h'.copy_countable hbytes
  obtain ⟨hprevouts, hsequences, houts⟩ := sigHashCopy_all txTo scriptCode nIn.toNat
  obtain ⟨hprevouts', hsequences', houts'⟩ := sigHashCopy_all txTo' scriptCode' nIn'.toNat
  refine ⟨hversion, htime, ?_, ?_, ?_, hlock⟩
  · rw [← hprevouts, ← hprevouts', hvin]
  · rw [← hsequences, ← hsequences', hvin]
  · rw [← houts, ← houts', hvout]

def toySigned (nTime : UInt32) (scriptSig : CScript) : CTransaction where
  nVersion := 2
  nTime := nTime
  vin := [⟨⟨5, 0⟩, scriptSig, 7⟩]
  vout := [⟨3, [0x51]⟩]
  nLockTime := 9

lemma toySigned_input (nTime : UInt32) {scriptSig : CScript} (h : scriptSig.length < 2 ^ 32) :
    SigHashInput [OP_CODESEPARATOR, OP_CHECKSIG] (toySigned nTime scriptSig) 0 1 where
  countable :=
    { vin := by simp [toySigned]
      scriptSig := by simpa [toySigned] using h
      vout := by simp [toySigned]
      scriptPubKey := by simp [toySigned] }
  input := by simp [toySigned]
  output := by simp [toySigned]
  parses := by decide
  scriptCode := by simp

theorem toySigned_commits : let hashes : Hashes := ⟨fun _ => 0, fun _ => 0⟩
    let scriptCode := [OP_CODESEPARATOR, OP_CHECKSIG]
    signatureHash hashes scriptCode (toySigned 0 []) 0 1 =
        signatureHash hashes scriptCode (toySigned 1 [0x01, 0x02]) 0 1 ∧
      (toySigned 0 []).vout = (toySigned 1 [0x01, 0x02]).vout := by
  intro hashes scriptCode
  have hsame : signatureHashBytes scriptCode (toySigned 0 []) 0 1 =
      signatureHashBytes scriptCode (toySigned 1 [0x01, 0x02]) 0 1 := by decide +kernel
  have hhash : signatureHash hashes scriptCode (toySigned 0 []) 0 1 =
      signatureHash hashes scriptCode (toySigned 1 [0x01, 0x02]) 0 1 := by
    simp only [signatureHash, hsame]
  obtain ⟨hbytes, -, hcommit⟩ := signatureHash_commits hashes
    (toySigned_input 0 (by simp : ([] : CScript).length < 2 ^ 32))
  refine ⟨hhash, ?_⟩
  refine (hcommit (by decide) scriptCode (toySigned 1 [0x01, 0x02]) 0 1
    (toySigned_input 1 (by simp)) (by decide) ?_ hhash).2.2.2.2.1
  intro bytes' hbytes' _
  exact some.inj (hbytes.symm.trans (hsame.trans hbytes'))

end Jumpcoin
