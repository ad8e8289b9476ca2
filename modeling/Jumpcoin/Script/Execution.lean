import Jumpcoin.Script.Cost

/-!
# What an accepted script has executed

`VerifyScript` accepts only if each of its evaluations runs to its end. So an operation that it
comes to execute is completed, and the checker has granted what a lock time operation asks for.
-/

namespace Jumpcoin

open Codec Check Eval

section Executions

variable (lib : ScriptLib) (flags : Nat) (checker : SignatureChecker)

/-- The evaluations of `VerifyScript`: the script with the stack it is started on. -/
inductive Evaluates (scriptSig scriptPubKey : CScript) : List Bytes → CScript → Prop
  | scriptSig : Evaluates scriptSig scriptPubKey [] scriptSig
  | scriptPubKey {m : Machine} : evalScript lib flags checker [] scriptSig = (.returned (), m) →
      Evaluates scriptSig scriptPubKey m.stack scriptPubKey
  | redeemScript {redeem : CScript} {stack : List Bytes} :
      EvaluatesRedeem lib flags checker scriptSig scriptPubKey redeem stack →
      Evaluates scriptSig scriptPubKey stack redeem

/-- Verification comes to an operation in a branch that is executed, with a number of at most five
bytes on top of the stack. -/
structure ExecutesIn (stack : List Bytes) (script : CScript) (opcode : UInt8) (operand : Int)
    (m : Machine) : Prop where
  reached : Relation.ReflTransGen (Turn lib flags checker) (.start stack script) m
  executed : m.fExec = true
  next : ∃ data pc, getOp.run m.pc = some ((opcode, data), pc)
  operand : ∃ vch rest, m.stack = vch :: rest ∧
    CScriptNum.ofVch vch (hasFlag flags SCRIPT_VERIFY_MINIMALDATA) 5 = some operand

def Executes (scriptSig scriptPubKey : CScript) (opcode : UInt8) (operand : Int) : Prop :=
  ∃ stack script m, Evaluates lib flags checker scriptSig scriptPubKey stack script ∧
    ExecutesIn lib flags checker stack script opcode operand m

end Executions

variable {lib : ScriptLib} {flags : Nat} {checker : SignatureChecker}

/-! ## Accepted scripts run to their end -/

variable {scriptPubKey scriptSig script : CScript} {stack : List Bytes}

lemma Evaluates.returned (h : Evaluates lib flags checker scriptSig scriptPubKey stack script)
    (haccepts : acceptsScript lib flags checker scriptSig scriptPubKey = true) :
    ∃ m, evalScript lib flags checker stack script = (.returned (), m) := by
  obtain ⟨_, s, hverify⟩ := exists_returned haccepts
  cases h with
  | scriptSig =>
    obtain ⟨_, _, -, hverify⟩ := bind_eq_returned.mp hverify
    obtain ⟨_, _, hrun, -⟩ := bind_eq_returned.mp hverify
    obtain ⟨m, hm, -⟩ := runScript_eq_returned.mp hrun
    exact ⟨m, hm⟩
  | scriptPubKey hsig =>
    obtain ⟨_, _, -, hverify⟩ := bind_eq_returned.mp hverify
    obtain ⟨_, _, hrun, hverify⟩ := bind_eq_returned.mp hverify
    obtain ⟨m₁, hm₁, rfl, -⟩ := runScript_eq_returned.mp hrun
    obtain ⟨_, _, hrun', -⟩ := bind_eq_returned.mp hverify
    obtain ⟨m', hm', -⟩ := runScript_eq_returned.mp hrun'
    obtain rfl := (Prod.mk.inj (hsig.symm.trans hm₁)).2
    exact ⟨m', hm'⟩
  | redeemScript hredeem =>
    rw [hredeem.verifyScript_eq] at hverify
    obtain ⟨_, _, hrun, -⟩ := bind_eq_returned.mp hverify
    obtain ⟨m, hm, -⟩ := runScript_eq_returned.mp hrun
    exact ⟨m, hm⟩

lemma Evaluates.start_sound (h : Evaluates lib flags checker scriptSig scriptPubKey stack script) :
    (Machine.start stack script).Sound := by
  cases h with
  | scriptSig => exact Jumpcoin.start_sound (by simp) (by simp) _
  | scriptPubKey hsig =>
    have hm := evalScript_sound hsig
    have hsize := hm.size
    exact Jumpcoin.start_sound (by omega) hm.elements.stack _
  | redeemScript hredeem => exact hredeem.start_sound

variable {m' m : Machine}

lemma Turn.length_lt (h : Turn lib flags checker m m') (hm : m.Sound) :
    m'.pc.length < m.pc.length := by
  obtain ⟨-, ⟨opcode, data⟩, hop⟩ := h.sound hm
  obtain ⟨operand, hscript, -⟩ := getOp_run hop
  simp only [hscript, List.length_cons, List.length_append]
  omega

/-- A state that a loop passes and that is not at the end of the script is followed by a turn. The
loop is given a turn for each byte, and each turn takes at least one. -/
lemma evalLoop_completes {fuel : Nat} {m₁ : Machine} (hm : m.Sound) (hfuel : m.pc.length ≤ fuel)
    (hloop : evalLoop lib flags checker fuel m = (.returned (), m'))
    (hreach : Relation.ReflTransGen (Turn lib flags checker) m m₁) (hpc : m₁.pc ≠ []) :
    ∃ m₂, evalOp lib flags checker m₁ = (.returned (), m₂) := by
  induction hreach using Relation.ReflTransGen.head_induction_on generalizing fuel with
  | refl =>
    cases fuel with
    | zero => exact absurd (List.length_eq_zero_iff.mp (Nat.le_zero.mp hfuel)) hpc
    | succ fuel =>
      simp only [evalLoop, List.isEmpty_iff, hpc, if_false] at hloop
      obtain ⟨_, m₂, hturn, -⟩ := bind_eq_returned.mp hloop
      exact ⟨m₂, hturn⟩
  | head hturn _ ih =>
    have hlength := hturn.length_lt hm
    cases fuel with
    | zero => omega
    | succ fuel =>
      simp only [evalLoop, List.isEmpty_iff, hturn.1, if_false] at hloop
      rw [bind_returned hturn.2] at hloop
      exact ih (hturn.sound hm).1 (by omega) hloop

variable (haccepts : acceptsScript lib flags checker scriptSig scriptPubKey = true)
include haccepts

/-- An operation that an accepted script comes to execute returns. -/
lemma Executes.completes {opcode : UInt8} {operand : Int}
    (h : Executes lib flags checker scriptSig scriptPubKey opcode operand)
    (hopcode : OP_PUSHDATA4 < opcode) :
    ∃ m m' vch rest, m.stack = vch :: rest ∧
      CScriptNum.ofVch vch (hasFlag flags SCRIPT_VERIFY_MINIMALDATA) 5 = some operand ∧
      execOp lib flags checker (opOf opcode) m = (.returned (), m') := by
  obtain ⟨stack, script, m, hevaluates, hexecutes⟩ := h
  obtain ⟨_, hreturned⟩ := hevaluates.returned haccepts
  obtain ⟨vch, rest, hstack, hoperand⟩ := hexecutes.operand
  obtain ⟨data, pc, hop⟩ := hexecutes.next
  have hpc : m.pc ≠ [] := by
    rintro hnil
    simp [hnil, getOp_nil] at hop
  obtain ⟨m₂, hturn⟩ := evalLoop_completes hevaluates.start_sound le_rfl
    (evalScript_eq_returned hreturned) hexecutes.reached hpc
  rcases evalOp_eq lib flags checker hop with ⟨hstopped, -⟩ | ⟨-, -, heq⟩
  · simp [hturn] at hstopped
  · rw [heq] at hturn
    obtain ⟨_, m', hexec, -⟩ := bind_eq_returned.mp hturn
    have hexecuted : (m.advance opcode pc).fExec = true := hexecutes.executed
    refine ⟨m.advance opcode pc, m', vch, rest, hstack, hoperand, ?_⟩
    simpa [execOpcode, hexecuted, UInt8.not_le.mpr hopcode] using hexec

/-! ## Lock times -/

/-- A `CHECKLOCKTIMEVERIFY` that is switched on has had its operand granted. -/
lemma Executes.checkLockTime {t : Int}
    (h : Executes lib flags checker scriptSig scriptPubKey OP_CHECKLOCKTIMEVERIFY t)
    (hflag : hasFlag flags SCRIPT_VERIFY_CHECKLOCKTIMEVERIFY = true) :
    checker.checkLockTime t = true := by
  obtain ⟨m, m', vch, rest, hstack, hoperand, hexec⟩ := h.completes haccepts (by decide)
  change execCheckLockTimeVerify flags checker m = _ at hexec
  rw [execCheckLockTimeVerify, hflag, Bool.not_true, if_neg Bool.false_ne_true, getStack_bind,
    hstack] at hexec
  obtain ⟨n, _, hnum, hexec⟩ := bind_eq_returned.mp hexec
  obtain ⟨hn, rfl⟩ := require_eq_returned.mp hnum
  obtain rfl : n = t := Option.some.inj (hn.symm.trans hoperand)
  obtain ⟨_, _, -, hexec⟩ := bind_eq_returned.mp hexec
  exact (ensure_eq_returned.mp hexec).1

/-- So has a `CHECKSEQUENCEVERIFY` whose operand has the disable bit clear. -/
lemma Executes.checkSequence {n : Int}
    (h : Executes lib flags checker scriptSig scriptPubKey OP_CHECKSEQUENCEVERIFY n)
    (hflag : hasFlag flags SCRIPT_VERIFY_CHECKSEQUENCEVERIFY = true)
    (henabled : n.toNat.testBit 31 = false) :
    0 ≤ n ∧ checker.checkSequence n = true := by
  obtain ⟨m, m', vch, rest, hstack, hoperand, hexec⟩ := h.completes haccepts (by decide)
  change execCheckSequenceVerify flags checker m = _ at hexec
  rw [execCheckSequenceVerify, hflag, Bool.not_true, if_neg Bool.false_ne_true, getStack_bind,
    hstack] at hexec
  obtain ⟨n', _, hnum, hexec⟩ := bind_eq_returned.mp hexec
  obtain ⟨hn, rfl⟩ := require_eq_returned.mp hnum
  obtain rfl : n' = n := Option.some.inj (hn.symm.trans hoperand)
  obtain ⟨_, _, hcheck, hexec⟩ := bind_eq_returned.mp hexec
  obtain ⟨hsign, rfl⟩ := ensure_eq_returned.mp hcheck
  rw [henabled, if_neg Bool.false_ne_true] at hexec
  exact ⟨by simpa using hsign, (ensure_eq_returned.mp hexec).1⟩

end Jumpcoin
