import Jumpcoin.Script.Interpreter
import Jumpcoin.Validation.ConnectBlock

/-!
# Script flags only restrict

A flag of the interpreter adds a reason to fail, or turns an operation that did nothing into one
that may fail; it changes nothing in a run that succeeds. So what is accepted under some flags is
accepted under fewer, with one exception: without its own flag a lock time operation is an
upgradable `NOP`, which `DISCOURAGE_UPGRADABLE_NOPS` rejects.
-/

namespace Jumpcoin

open Codec (Bytes)
open Check Eval

def mandatoryScriptVerifyFlags : Nat :=
  SCRIPT_VERIFY_P2SH ||| SCRIPT_VERIFY_DERKEY ||| SCRIPT_VERIFY_LOW_S |||
    SCRIPT_VERIFY_NULLDUMMY ||| SCRIPT_VERIFY_CHECKLOCKTIMEVERIFY ||| SCRIPT_VERIFY_DERSIG

def standardScriptVerifyFlags : Nat :=
  mandatoryScriptVerifyFlags ||| standardNotMandatoryVerifyFlags

/-- Fewer flags, with no lock time operation that becomes a discouraged `NOP`. -/
structure FewerFlags (flags flags' : Nat) : Prop where
  sub : flags &&& flags' = flags
  nops : hasFlag flags SCRIPT_VERIFY_DISCOURAGE_UPGRADABLE_NOPS = false ∨
    (hasFlag flags SCRIPT_VERIFY_CHECKLOCKTIMEVERIFY =
        hasFlag flags' SCRIPT_VERIFY_CHECKLOCKTIMEVERIFY ∧
      hasFlag flags SCRIPT_VERIFY_CHECKSEQUENCEVERIFY =
        hasFlag flags' SCRIPT_VERIFY_CHECKSEQUENCEVERIFY)

/-- A routine that leaves the state alone can be left out. -/
lemma Check.Restricts.of_reports {σ : Type} {x : Check σ Unit}
    (h : Reports (fun _ => True) (fun _ => True) x) : Restricts x (pure ()) := by
  intro s u s' hreturned
  rw [(h s trivial).1 u s' hreturned]
  rfl

/-- A lock time operation leaves the machine as it is. -/
lemma lockTime_reports (flags : Nat) (f : Int → Eval Unit)
    (hf : ∀ n, Reports (fun _ => True) (fun _ => True) (f n)) :
    Reports (fun _ => True) (fun _ => True) (do
      match ← getStack with
      | [] => fail .invalidStackOperation
      | vch :: _ =>
        let n ← toLockTime flags vch
        check (!decide (n < 0)) .negativeLocktime
        f n) := by
  refine .bind ?_ fun stack => ?_
  · intro m _
    simp [getStack]
  · cases stack with
    | nil => exact .refuse fun _ _ => trivial
    | cons vch stack =>
      exact .bind (.require _) fun n => .bind (.ensure fun _ _ => trivial) fun _ => hf n

lemma checkNone_restricts {o o' : Option ScriptError} (h : o = none → o' = none) :
    Restricts (checkNone o) (checkNone o') := by
  cases o with
  | none => rw [h rfl]; exact .refl _
  | some serror => exact .refuse _ _

namespace FewerFlags

variable {lib : ScriptLib} {checker : SignatureChecker} {flags flags' : Nat}
  (h : FewerFlags flags flags') {scriptSig scriptPubKey : CScript}

include h

lemma flag (flag : Nat) (hflag : hasFlag flags flag = true) : hasFlag flags' flag = true := by
  simp only [hasFlag, bne_iff_ne, ne_eq] at hflag ⊢
  intro hzero
  rw [← h.sub, Nat.and_assoc, hzero, Nat.and_zero] at hflag
  exact hflag rfl

/-! ## Encodings -/

lemma ofVch_some {vch : Bytes} {nMaxNumSize : Nat} {bn : Int}
    (hnum : CScriptNum.ofVch vch (hasFlag flags' SCRIPT_VERIFY_MINIMALDATA) nMaxNumSize = some bn) :
    CScriptNum.ofVch vch (hasFlag flags SCRIPT_VERIFY_MINIMALDATA) nMaxNumSize = some bn := by
  have hminimal := h.flag SCRIPT_VERIFY_MINIMALDATA
  unfold CScriptNum.ofVch at hnum ⊢
  grind

lemma checkSignatureEncoding_none {vchSig : Bytes}
    (hnone : checkSignatureEncoding lib flags' vchSig = none) :
    checkSignatureEncoding lib flags vchSig = none := by
  have hany := h.flag (SCRIPT_VERIFY_DERSIG ||| SCRIPT_VERIFY_LOW_S ||| SCRIPT_VERIFY_STRICTENC)
  have hlow := h.flag SCRIPT_VERIFY_LOW_S
  have hstrict := h.flag SCRIPT_VERIFY_STRICTENC
  unfold checkSignatureEncoding at hnone ⊢
  grind

lemma checkPubKeyEncoding_none {vchPubKey : Bytes}
    (hnone : checkPubKeyEncoding flags' vchPubKey = none) :
    checkPubKeyEncoding flags vchPubKey = none := by
  have hany := h.flag (SCRIPT_VERIFY_DERKEY ||| SCRIPT_VERIFY_STRICTENC)
  unfold checkPubKeyEncoding at hnone ⊢
  grind

/-! ## Operations -/

lemma toNum_restricts (vch : Bytes) : Restricts (toNum flags' vch) (toNum flags vch) :=
  .require fun _ hnum => h.ofVch_some hnum

/-- A condition that a flag adds to an operation. -/
lemma check_restricts (flag : Nat) (c : Bool) (serror : ScriptError) :
    Restricts (check (!(hasFlag flags' flag && c)) serror)
      (check (!(hasFlag flags flag && c)) serror) := by
  refine .ensure fun hok => ?_
  have hflag := h.flag flag
  grind

lemma execUpgradableNop_restricts :
    Restricts (execUpgradableNop flags') (execUpgradableNop flags) := by
  refine .ensure fun hok => ?_
  have hflag := h.flag SCRIPT_VERIFY_DISCOURAGE_UPGRADABLE_NOPS
  grind

/-- An operation that is a `NOP` without its flag. -/
lemma gated_restricts {flag : Nat} {x y : Eval Unit} (hxy : Restricts x y)
    (hnop : Restricts x (pure ()))
    (hsame : hasFlag flags SCRIPT_VERIFY_DISCOURAGE_UPGRADABLE_NOPS = false ∨
      hasFlag flags flag = hasFlag flags' flag) :
    Restricts (if !hasFlag flags' flag then execUpgradableNop flags' else x)
      (if !hasFlag flags flag then execUpgradableNop flags else y) := by
  cases hflag : hasFlag flags flag with
  | true => simpa [h.flag flag hflag] using hxy
  | false =>
    cases hflag' : hasFlag flags' flag with
    | false => simpa using h.execUpgradableNop_restricts
    | true =>
      have hdiscourage := hsame.resolve_right (by simp [hflag, hflag'])
      simpa [execUpgradableNop, check, hdiscourage] using hnop

lemma lockTime_restricts {f : Int → Eval Unit} :
    Restricts (do match ← getStack with
        | [] => fail .invalidStackOperation
        | vch :: _ =>
          let n ← toLockTime flags' vch
          check (!decide (n < 0)) .negativeLocktime
          f n)
      (do
        match ← getStack with
        | [] => fail .invalidStackOperation
        | vch :: _ =>
          let n ← toLockTime flags vch
          check (!decide (n < 0)) .negativeLocktime
          f n) := by
  refine .bind (.refl _) fun stack => ?_
  cases stack with
  | nil => exact .refl _
  | cons vch stack =>
    exact .bind (.require fun _ hnum => h.ofVch_some hnum) fun _ => .refl _

lemma execCheckLockTimeVerify_restricts :
    Restricts (execCheckLockTimeVerify flags' checker) (execCheckLockTimeVerify flags checker) := by
  refine h.gated_restricts h.lockTime_restricts (.of_reports ?_) (h.nops.imp id (·.1))
  exact lockTime_reports _ _ fun _ => .ensure fun _ _ => trivial

lemma execCheckSequenceVerify_restricts :
    Restricts (execCheckSequenceVerify flags' checker) (execCheckSequenceVerify flags checker) := by
  refine h.gated_restricts h.lockTime_restricts (.of_reports ?_) (h.nops.imp id (·.2))
  exact lockTime_reports _ _ fun _ =>
    .ite (fun _ => .pure ()) fun _ => .ensure fun _ _ => trivial

lemma execIf_restricts (negate : Bool) :
    Restricts (execIf flags' negate) (execIf flags negate) := by
  intro m u m' hreturned
  unfold execIf at hreturned ⊢
  by_cases hexec : m.fExec = true
  · rw [if_pos hexec] at hreturned ⊢
    cases hstack : m.stack with
    | nil => simp [hstack, fail] at hreturned
    | cons vch stack =>
      simp only [hstack] at hreturned ⊢
      have hflag := h.flag SCRIPT_VERIFY_MINIMALIF
      split_ifs at hreturned with hminimal
      · simp [fail] at hreturned
      · rw [if_neg (by grind)]
        exact hreturned
  · rw [if_neg hexec] at hreturned ⊢
    exact hreturned

lemma execPick_restricts (roll : Bool) :
    Restricts (execPick flags' roll) (execPick flags roll) := by
  refine .bind (.refl _) fun stack => ?_
  split
  · exact .bind (h.toNum_restricts _) fun _ => .refl _
  · exact .refl _

lemma execUnary_restricts (op : UnaryOp) :
    Restricts (execUnary flags' op) (execUnary flags op) := by
  refine .bind (.refl _) fun stack => ?_
  split
  · exact .bind (h.toNum_restricts _) fun _ => .refl _
  · exact .refl _

lemma execBinary_restricts (op : BinaryOp) :
    Restricts (execBinary flags' op) (execBinary flags op) := by
  refine .bind (.refl _) fun stack => ?_
  split
  · exact .bind (h.toNum_restricts _) fun _ => .bind (h.toNum_restricts _) fun _ => .refl _
  · exact .refl _

lemma execWithin_restricts : Restricts (execWithin flags') (execWithin flags) := by
  refine .bind (.refl _) fun stack => ?_
  split
  · exact .bind (h.toNum_restricts _) fun _ => .bind (h.toNum_restricts _) fun _ =>
      .bind (h.toNum_restricts _) fun _ => .refl _
  · exact .refl _

lemma callCheckSig_restricts (vchSig vchPubKey : Bytes) (scriptCode : CScript) :
    Restricts (callCheckSig lib flags' checker vchSig vchPubKey scriptCode)
      (callCheckSig lib flags checker vchSig vchPubKey scriptCode) := by
  refine .bind ?_ fun _ => .bind ?_ fun _ => .refl _
  · exact checkNone_restricts fun hnone => h.checkSignatureEncoding_none hnone
  · exact checkNone_restricts fun hnone => h.checkPubKeyEncoding_none hnone

/-- A signature that fails has to be empty under a flag. -/
lemma nullFail_restricts (fSuccess c : Bool) :
    Restricts (check (!(!fSuccess && hasFlag flags' SCRIPT_VERIFY_NULLFAIL && c)) .sigNullFail)
      (check (!(!fSuccess && hasFlag flags SCRIPT_VERIFY_NULLFAIL && c)) .sigNullFail) := by
  refine .ensure fun hok => ?_
  have hflag := h.flag SCRIPT_VERIFY_NULLFAIL
  grind

lemma execCheckSig_restricts (verify : Bool) :
    Restricts (execCheckSig lib flags' checker verify) (execCheckSig lib flags checker verify) := by
  refine .bind (.refl _) fun stack => ?_
  split
  · refine .bind (.refl _) fun codeHash => .bind (h.callCheckSig_restricts _ _ _) fun fSuccess => ?_
    exact .bind (h.nullFail_restricts _ _) fun _ => .refl _
  · exact .refl _

lemma checkMultiSigLoop_restricts (scriptCode : CScript) (keys sigs : List Bytes) :
    Restricts (checkMultiSigLoop lib flags' checker scriptCode keys sigs)
      (checkMultiSigLoop lib flags checker scriptCode keys sigs) := by
  induction keys generalizing sigs with
  | nil =>
    cases sigs with
    | nil => exact .refl _
    | cons vchSig sigs => exact .refl _
  | cons vchPubKey keys ih =>
    cases sigs with
    | nil => exact .refl _
    | cons vchSig sigs =>
      refine .bind (h.callCheckSig_restricts _ _ _) fun fOk => ?_
      generalize (if fOk then sigs else vchSig :: sigs) = sigs'
      dsimp only
      split_ifs
      · exact .refl _
      · exact ih sigs'

lemma finishMultiSig_restricts (verify fSuccess : Bool) (sigs stack : List Bytes) :
    Restricts (finishMultiSig flags' verify fSuccess sigs stack)
      (finishMultiSig flags verify fSuccess sigs stack) := by
  refine .bind (h.nullFail_restricts _ _) fun _ => ?_
  cases stack with
  | nil => exact .refl _
  | cons dummy stack => exact .bind (h.check_restricts _ _ _) fun _ => .refl _

lemma execMultiSigKeys_restricts (verify : Bool) (nKeysCount : Nat) (stack : List Bytes) :
    Restricts (execMultiSigKeys lib flags' checker verify nKeysCount stack)
      (execMultiSigKeys lib flags checker verify nKeysCount stack) := by
  unfold execMultiSigKeys
  cases stack.drop nKeysCount with
  | nil => exact .refl _
  | cons vch stack =>
    refine .bind (h.toNum_restricts _) fun bn => .bind (.refl _) fun _ =>
      .bind (.refl _) fun _ => ?_
    exact .bind (.refl _) fun codeHash =>
      .bind (h.checkMultiSigLoop_restricts _ _ _) fun fSuccess =>
      h.finishMultiSig_restricts _ _ _ _

lemma execCheckMultiSig_restricts (verify : Bool) :
    Restricts (execCheckMultiSig lib flags' checker verify)
      (execCheckMultiSig lib flags checker verify) := by
  refine .bind (.refl _) fun stack => ?_
  cases stack with
  | nil => exact .refl _
  | cons vch stack =>
    exact .bind (h.toNum_restricts _) fun _ => .bind (.refl _) fun _ => .bind (.refl _) fun _ =>
      h.execMultiSigKeys_restricts _ _ _

lemma execOp_restricts (op : Op) :
    Restricts (execOp lib flags' checker op) (execOp lib flags checker op) := by
  cases op with
  | checkLockTimeVerify => exact h.execCheckLockTimeVerify_restricts
  | checkSequenceVerify => exact h.execCheckSequenceVerify_restricts
  | nopN => exact h.execUpgradableNop_restricts
  | ifThen negate => exact h.execIf_restricts negate
  | pick roll => exact h.execPick_restricts roll
  | unary op => exact h.execUnary_restricts op
  | binary op => exact h.execBinary_restricts op
  | within => exact h.execWithin_restricts
  | checkSig verify => exact h.execCheckSig_restricts verify
  | checkMultiSig verify => exact h.execCheckMultiSig_restricts verify
  | _ => exact .refl _

/-! ## Scripts -/

lemma execOpcode_restricts (opcode : UInt8) (vchPushValue : Bytes) :
    Restricts (execOpcode lib flags' checker opcode vchPushValue)
      (execOpcode lib flags checker opcode vchPushValue) := by
  intro m u m' hreturned
  unfold execOpcode at hreturned ⊢
  split_ifs at hreturned ⊢
  · refine Restricts.bind (h.check_restricts _ _ _) (fun _ => .refl _) m u m' hreturned
  · exact h.execOp_restricts _ m u m' hreturned
  · exact hreturned

lemma evalOp_restricts : Restricts (evalOp lib flags' checker) (evalOp lib flags checker) := by
  refine .bind (.refl _) fun op => .bind (.refl _) fun _ => .bind (.refl _) fun _ => ?_
  exact .bind (.refl _) fun _ => .bind (h.execOpcode_restricts _ _) fun _ => .refl _

lemma evalLoop_restricts (fuel : Nat) :
    Restricts (evalLoop lib flags' checker fuel) (evalLoop lib flags checker fuel) := by
  induction fuel with
  | zero => exact .refl _
  | succ fuel ih =>
    intro m u m' hreturned
    unfold evalLoop at hreturned ⊢
    split_ifs at hreturned ⊢
    · exact hreturned
    · exact Restricts.bind h.evalOp_restricts (fun _ => ih) m u m' hreturned

lemma runScript_restricts (stack : List Bytes) (script : CScript) :
    Restricts (runScript lib flags' checker stack script)
      (runScript lib flags checker stack script) := by
  intro s stack' s' hreturned
  obtain ⟨m, heval, rfl, rfl⟩ := runScript_eq_returned.mp hreturned
  refine runScript_eq_returned.mpr ⟨m, ?_, rfl, rfl⟩
  refine Restricts.bind (.refl _) (fun _ => .bind ?_ fun _ => .refl _) _ () m heval
  intro m u m' hreturned
  rw [catchAll_eq_returned] at hreturned ⊢
  exact h.evalLoop_restricts _ m u m' hreturned

lemma verifyRedeemScript_restricts (scriptSig : CScript) (stackCopy : List Bytes) :
    Restricts (verifyRedeemScript lib flags' checker scriptSig stackCopy)
      (verifyRedeemScript lib flags checker scriptSig stackCopy) := by
  refine .bind (.refl _) fun _ => ?_
  cases stackCopy with
  | nil => exact .refl _
  | cons pubKey2 stack => exact .bind (h.runScript_restricts _ _) fun _ => .refl _

variable (hp2sh : hasFlag flags SCRIPT_VERIFY_CLEANSTACK = true →
  hasFlag flags SCRIPT_VERIFY_P2SH = true)
include hp2sh

lemma verifyCleanStack_restricts (stack : List Bytes) :
    Restricts (verifyCleanStack flags' stack) (verifyCleanStack flags stack) := by
  unfold verifyCleanStack
  cases hclean : hasFlag flags SCRIPT_VERIFY_CLEANSTACK with
  | true =>
    rw [h.flag _ hclean, hp2sh hclean, h.flag _ (hp2sh hclean)]
    exact .refl _
  | false =>
    refine .of_reports (.ite (fun _ => ?_) fun _ => .pure ())
    exact .bind (.demand _) fun _ => .ensure fun _ _ => trivial

/-- The last part of `VerifyScript`. Without the flag for pay-to-script-hash it does nothing. -/
lemma verifyEnd_returned {stackCopy stack : List Bytes} {u : Unit} {s s' : ScriptError}
    (hreturned : (verifyP2SH lib flags' checker scriptSig scriptPubKey stackCopy stack >>=
      verifyCleanStack flags') s = (.returned u, s')) :
    ∃ s'', (verifyP2SH lib flags checker scriptSig scriptPubKey stackCopy stack >>=
      verifyCleanStack flags) s = (.returned u, s'') := by
  cases hflag : hasFlag flags SCRIPT_VERIFY_P2SH with
  | true =>
    refine ⟨s', Restricts.bind ?_ (h.verifyCleanStack_restricts hp2sh) _ _ _ hreturned⟩
    unfold verifyP2SH
    rw [hflag, h.flag _ hflag]
    split_ifs
    · exact h.verifyRedeemScript_restricts _ _
    · exact .refl _
  | false =>
    have hclean : hasFlag flags SCRIPT_VERIFY_CLEANSTACK = false := by grind
    refine ⟨s, ?_⟩
    simp [verifyP2SH, verifyCleanStack, hflag, hclean, pure_apply]

/-- What is accepted is accepted with fewer flags. -/
lemma acceptsScript_of
    (haccepts : acceptsScript lib flags' checker scriptSig scriptPubKey = true) :
    acceptsScript lib flags checker scriptSig scriptPubKey = true := by
  obtain ⟨u, s', hverify⟩ := exists_returned haccepts
  obtain ⟨v, s₁, hpushOnly, hverify⟩ := bind_eq_returned.mp hverify
  obtain ⟨stackCopy, s₂, hsig, hverify⟩ := bind_eq_returned.mp hverify
  obtain ⟨stack, s₃, hpub, hverify⟩ := bind_eq_returned.mp hverify
  obtain ⟨w, s₄, htrue, hend⟩ := bind_eq_returned.mp hverify
  have hpushOnly' : Restricts
      (ensure (!hasFlag flags' SCRIPT_VERIFY_SIGPUSHONLY || isPushOnly scriptSig.length scriptSig)
        fun _ => ScriptError.sigPushOnly)
      (ensure (!hasFlag flags SCRIPT_VERIFY_SIGPUSHONLY || isPushOnly scriptSig.length scriptSig)
        fun _ => ScriptError.sigPushOnly) := by
    refine .ensure fun hok => ?_
    have hflag := h.flag SCRIPT_VERIFY_SIGPUSHONLY
    grind
  obtain ⟨s'', hend'⟩ := h.verifyEnd_returned hp2sh hend
  have hverify' : verifyScript lib flags checker scriptSig scriptPubKey .unknownError =
      (.returned u, s'') := by
    unfold verifyScript
    rw [bind_returned (hpushOnly' _ _ _ hpushOnly),
      bind_returned (h.runScript_restricts _ _ _ _ _ hsig),
      bind_returned (h.runScript_restricts _ _ _ _ _ hpub), bind_returned htrue]
    exact hend'
  simp [acceptsScript, hverify', Outcome.isReturned]

end FewerFlags

/-- Script flags only restrict: fewer flags accept what more flags accept. So an input that is
accepted under the standard flags is accepted under the mandatory flags and under those of any
block. -/
theorem flags_only_restrict (lib : ScriptLib) (checker : SignatureChecker)
    (scriptSig scriptPubKey : CScript) :
    (∀ flags flags' : Nat, flags &&& flags' = flags →
        (hasFlag flags SCRIPT_VERIFY_DISCOURAGE_UPGRADABLE_NOPS = false ∨
          (hasFlag flags SCRIPT_VERIFY_CHECKLOCKTIMEVERIFY =
              hasFlag flags' SCRIPT_VERIFY_CHECKLOCKTIMEVERIFY ∧
            hasFlag flags SCRIPT_VERIFY_CHECKSEQUENCEVERIFY =
              hasFlag flags' SCRIPT_VERIFY_CHECKSEQUENCEVERIFY)) →
        (hasFlag flags SCRIPT_VERIFY_CLEANSTACK = true →
          hasFlag flags SCRIPT_VERIFY_P2SH = true) →
        acceptsScript lib flags' checker scriptSig scriptPubKey = true →
        acceptsScript lib flags checker scriptSig scriptPubKey = true) ∧
      (acceptsScript lib standardScriptVerifyFlags checker scriptSig scriptPubKey = true →
        acceptsScript lib mandatoryScriptVerifyFlags checker scriptSig scriptPubKey = true ∧
          ∀ (params : Params) (nBlockTime : Int), acceptsScript lib
            (blockScriptFlags params nBlockTime) checker scriptSig scriptPubKey = true) := by
  refine ⟨fun flags flags' hsub hnops hp2sh haccepts =>
    FewerFlags.acceptsScript_of ⟨hsub, hnops⟩ hp2sh haccepts, ?_⟩
  intro hstandard
  refine ⟨FewerFlags.acceptsScript_of ⟨by decide, by decide⟩ (by decide) hstandard, ?_⟩
  intro params nBlockTime
  refine FewerFlags.acceptsScript_of ?_ ?_ hstandard
  all_goals
    unfold blockScriptFlags
    cases params.isProtocolV3 nBlockTime <;> cases params.isProtocolV3_1 nBlockTime
  · exact ⟨by decide, by decide⟩
  · exact ⟨by decide, by decide⟩
  · exact ⟨by decide, by decide⟩
  · exact ⟨by decide, by decide⟩
  all_goals decide

/-- `5 CHECKLOCKTIMEVERIFY CHECKSEQUENCEVERIFY`. -/
theorem lockedScript_accepted :
    acceptsScript toyScriptLib standardScriptVerifyFlags (toyChecker 7) [] [0x55, 0xb1, 0xb2] =
        true ∧
      acceptsScript toyScriptLib mandatoryScriptVerifyFlags (toyChecker 7) [] [0x55, 0xb1, 0xb2] =
        true := by
  have hstandard : acceptsScript toyScriptLib standardScriptVerifyFlags (toyChecker 7) []
      [0x55, 0xb1, 0xb2] = true := by decide
  exact ⟨hstandard, ((flags_only_restrict toyScriptLib (toyChecker 7) [] _).2 hstandard).1⟩

/-- Without its flag a lock time operation is a `NOP` that may be discouraged. -/
example : acceptsScript toyScriptLib SCRIPT_VERIFY_DISCOURAGE_UPGRADABLE_NOPS (toyChecker 7) []
    [0x55, 0xb1] = false := by decide

end Jumpcoin
