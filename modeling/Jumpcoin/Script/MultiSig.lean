import Jumpcoin.Foundation.Sequences
import Jumpcoin.Script.Cost

/-!
# What `CHECKMULTISIG` decides

The loop of `CHECKMULTISIG` runs once through the keys and gives up as soon as more signatures than
keys are left. It succeeds exactly when the signatures can be assigned to keys in order. What the
operation makes of that depends on its limits and, under two flags, on the values it removes.
-/

namespace Jumpcoin

open Codec Check Eval

variable {lib : ScriptLib} {flags : Nat} {checker : SignatureChecker}

/-- The encodings of some signatures and keys pass under the flags. -/
structure EncodingsPass (lib : ScriptLib) (flags : Nat) (sigs keys : List Bytes) : Prop where
  sigs : ∀ vchSig ∈ sigs, checkSignatureEncoding lib flags vchSig = none
  keys : ∀ vchPubKey ∈ keys, checkPubKeyEncoding flags vchPubKey = none

def multiSigCode (codeHash : CScript) (sigs : List Bytes) : CScript :=
  sigs.foldl (fun code vchSig => findAndDelete code (pushOf vchSig)) codeHash

def SigsAssigned (checker : SignatureChecker) (scriptCode : CScript) (sigs keys : List Bytes) :
    Prop :=
  Assignable (fun vchSig vchPubKey => checker.checkSig vchSig vchPubKey scriptCode = true) sigs keys

/-- The greedy loop finds an assignment if there is one. -/
lemma checkMultiSigLoop_decides (checker : SignatureChecker) (scriptCode : CScript)
    {keys sigs : List Bytes} (henc : EncodingsPass lib flags sigs keys) (m : Machine) :
    ∃ fSuccess n, checkMultiSigLoop lib flags checker scriptCode keys sigs m =
        (.returned fSuccess, { m with nSigChecks := n }) ∧
      (fSuccess = true ↔ SigsAssigned checker scriptCode sigs keys) := by
  induction keys generalizing sigs m with
  | nil =>
    cases sigs with
    | nil => exact ⟨true, m.nSigChecks, rfl, by simp [SigsAssigned]⟩
    | cons vchSig sigs =>
      refine ⟨false, m.nSigChecks, rfl, iff_of_false (by decide) fun h => ?_⟩
      have := h.length_le
      simp at this
  | cons vchPubKey keys ih =>
    cases sigs with
    | nil => exact ⟨true, m.nSigChecks, rfl, by simp [SigsAssigned]⟩
    | cons vchSig sigs =>
      have hcall : callCheckSig lib flags checker vchSig vchPubKey scriptCode m =
          (.returned (checker.checkSig vchSig vchPubKey scriptCode),
            { m with nSigChecks := m.nSigChecks + 1 }) := by
        rw [callCheckSig, henc.sigs _ List.mem_cons_self, henc.keys _ List.mem_cons_self]
        rfl
      rw [checkMultiSigLoop, bind_returned hcall]
      -- the signatures left after the first key, and what that key can contribute
      obtain ⟨sigs', hsigs', hsub, hassigned⟩ : ∃ sigs', sigs' =
            (if checker.checkSig vchSig vchPubKey scriptCode then sigs else vchSig :: sigs) ∧
          sigs' ⊆ vchSig :: sigs ∧
          (SigsAssigned checker scriptCode (vchSig :: sigs) (vchPubKey :: keys) ↔
            SigsAssigned checker scriptCode sigs' keys) := by
        refine ⟨_, rfl, ?_, ?_⟩ <;> split_ifs with hok
        · exact List.subset_cons_self _ _
        · exact List.Subset.refl _
        · exact Assignable.cons_of_ok hok
        · exact Assignable.cons_of_not hok
      simp only [← hsigs']
      split_ifs with hfew
      · refine ⟨false, _, rfl, iff_of_false (by decide) fun h => ?_⟩
        have := (hassigned.mp h).length_le
        omega
      · have henc' : EncodingsPass lib flags sigs' keys :=
          ⟨fun sig hsig => henc.sigs sig (hsub hsig),
            fun key hkey => henc.keys key (List.mem_cons_of_mem _ hkey)⟩
        obtain ⟨fSuccess, n, hrun, hiff⟩ := ih henc' { m with nSigChecks := m.nSigChecks + 1 }
        exact ⟨fSuccess, n, hrun, hiff.trans hassigned.symm⟩

/-! ## The operation -/

/-- The stack that `CHECKMULTISIG` finds, from its top: a number of keys and the keys, a number of
signatures and the signatures, and one value more. -/
structure MultiSigArguments (flags : Nat) (keys sigs : List Bytes) (dummy : Bytes)
    (rest stack : List Bytes) : Prop where
  stack : ∃ vchKeys vchSigs, stack = vchKeys :: (keys ++ vchSigs :: (sigs ++ dummy :: rest)) ∧
    CScriptNum.ofVch vchKeys (hasFlag flags SCRIPT_VERIFY_MINIMALDATA)
      CScriptNum.nDefaultMaxNumSize = some (keys.length : Int) ∧
    CScriptNum.ofVch vchSigs (hasFlag flags SCRIPT_VERIFY_MINIMALDATA)
      CScriptNum.nDefaultMaxNumSize = some (sigs.length : Int)
  le : sigs.length ≤ keys.length

def MultiSigLimits (m : Machine) (keys : List Bytes) : Prop :=
  keys.length ≤ MAX_PUBKEYS_PER_MULTISIG ∧ m.nOpCount + keys.length ≤ MAX_OPS_PER_SCRIPT

lemma getInt_of_le {n : Nat} (h : n ≤ MAX_PUBKEYS_PER_MULTISIG) : CScriptNum.getInt n = n := by
  unfold CScriptNum.getInt MAX_PUBKEYS_PER_MULTISIG at *
  omega

section Operation

variable {keys sigs rest : List Bytes} {dummy : Bytes} {m : Machine} {m' : Machine} {u : Unit}

/-- Within its limits the operation ends as the loop has decided. -/
lemma execCheckMultiSig_eq (checker : SignatureChecker) (henc : EncodingsPass lib flags sigs keys)
    (hargs : MultiSigArguments flags keys sigs dummy rest m.stack)
    (hlimits : MultiSigLimits m keys) :
    ∃ fSuccess n,
      (fSuccess = true ↔ SigsAssigned checker (multiSigCode m.codeHash sigs) sigs keys) ∧
      execCheckMultiSig lib flags checker false m =
        finishMultiSig flags false fSuccess sigs (dummy :: rest)
          { m with nOpCount := m.nOpCount + keys.length, nSigChecks := n } := by
  obtain ⟨⟨vchKeys, vchSigs, hstack, hkeys, hsigs⟩, hle⟩ := hargs
  obtain ⟨hmax, hops⟩ := hlimits
  obtain ⟨fSuccess, n, hloop, hiff⟩ := checkMultiSigLoop_decides checker
    (multiSigCode m.codeHash sigs) henc { m with nOpCount := m.nOpCount + keys.length }
  refine ⟨fSuccess, n, hiff, ?_⟩
  have hlast : sigs.length < (sigs ++ dummy :: rest).length := by simp
  simp only [execCheckMultiSig, getStack_bind, hstack, toNum, hkeys, require_some, pure_bind,
    getInt_of_le hmax, check_bind_apply, countKeys_bind_apply, Int.toNat_natCast, hops, if_true,
    execMultiSigKeys, List.take_left, List.drop_left, hsigs, getInt_of_le (hle.trans hmax),
    getCodeHash_bind, hlast, decide_true]
  rw [if_pos (by simpa using hmax), if_pos (by simpa using hle), ← hstack]
  exact bind_returned hloop

/-- Beyond its limits the operation fails. -/
lemma execCheckMultiSig_limits (hargs : MultiSigArguments flags keys sigs dummy rest m.stack)
    (h : execCheckMultiSig lib flags checker false m = (.returned u, m')) :
    MultiSigLimits m keys := by
  obtain ⟨⟨vchKeys, vchSigs, hstack, hkeys, -⟩, -⟩ := hargs
  rw [execCheckMultiSig, getStack_bind, hstack] at h
  simp only [toNum, hkeys, require_some, pure_bind, check_bind_apply, countKeys_bind_apply] at h
  split_ifs at h with hcount hops
  · have hmax : keys.length ≤ MAX_PUBKEYS_PER_MULTISIG := by
      simp only [CScriptNum.getInt, MAX_PUBKEYS_PER_MULTISIG] at hcount ⊢
      simp at hcount
      omega
    rw [getInt_of_le hmax] at hops
    exact ⟨hmax, hops⟩
  all_goals simp [fail, refuse] at h

lemma finishMultiSig_eq_returned {fSuccess : Bool} :
    finishMultiSig flags false fSuccess sigs (dummy :: rest) m = (.returned u, m') ↔
      m' = { m with stack := vchOfBool fSuccess :: rest } ∧
      (hasFlag flags SCRIPT_VERIFY_NULLDUMMY = true → dummy = []) ∧
      (fSuccess = false → hasFlag flags SCRIPT_VERIFY_NULLFAIL = true →
        ∀ sig ∈ sigs, sig = []) := by
  simp only [finishMultiSig, check_bind_apply, setStack_bind, Bool.false_eq_true, if_false]
  split_ifs with hfail hdummy
  · simp only [pure_eq_returned, true_and, eq_comm]
    grind
  · simp [fail, refuse] at *
    grind
  · simp [fail, refuse] at *
    grind

lemma MultiSigArguments.drop_eq (hargs : MultiSigArguments flags keys sigs dummy rest m.stack) :
    m.stack.drop (keys.length + sigs.length + 3) = rest := by
  obtain ⟨⟨vchKeys, vchSigs, hstack, -⟩, -⟩ := hargs
  have hsplit : m.stack = (vchKeys :: keys ++ vchSigs :: sigs ++ [dummy]) ++ rest := by
    simp [hstack]
  rw [hsplit]
  exact List.drop_left' (by simp; omega)

/-- The operation removes its arguments and pushes whether the signatures are assigned to keys; it
fails beyond its limits, and under two flags where it finds a value that ought to be empty. -/
theorem checkMultiSig_yields (henc : EncodingsPass lib flags sigs keys)
    (hargs : MultiSigArguments flags keys sigs dummy rest m.stack) :
    (∀ m', execOp lib flags checker (.checkMultiSig false) m = (.returned (), m') →
      ∃ fSuccess, m'.stack = vchOfBool fSuccess :: m.stack.drop (keys.length + sigs.length + 3)) ∧
    ∀ fSuccess, (∃ m', execOp lib flags checker (.checkMultiSig false) m = (.returned (), m') ∧
        m'.stack = vchOfBool fSuccess :: m.stack.drop (keys.length + sigs.length + 3)) ↔
      MultiSigLimits m keys ∧
      (fSuccess = true ↔ SigsAssigned checker (multiSigCode m.codeHash sigs) sigs keys) ∧
      (hasFlag flags SCRIPT_VERIFY_NULLDUMMY = true → dummy = []) ∧
      (fSuccess = false → hasFlag flags SCRIPT_VERIFY_NULLFAIL = true →
        ∀ sig ∈ sigs, sig = []) := by
  have hop : execOp lib flags checker (.checkMultiSig false) =
      execCheckMultiSig lib flags checker false := rfl
  rw [hop, hargs.drop_eq]
  refine ⟨fun m' h => ?_, fun fSuccess => ⟨?_, ?_⟩⟩
  · obtain ⟨fSuccess, n, -, heq⟩ :=
      execCheckMultiSig_eq checker henc hargs (execCheckMultiSig_limits hargs h)
    rw [heq, finishMultiSig_eq_returned] at h
    exact ⟨fSuccess, by rw [h.1]⟩
  · rintro ⟨m', h, hstack⟩
    have hlimits := execCheckMultiSig_limits hargs h
    obtain ⟨found, n, hiff, heq⟩ := execCheckMultiSig_eq checker henc hargs hlimits
    rw [heq, finishMultiSig_eq_returned] at h
    obtain ⟨rfl, hdummy, hfail⟩ := h
    obtain rfl : found = fSuccess := by
      simp only [List.cons.injEq, and_true] at hstack
      revert hstack
      cases found <;> cases fSuccess <;> decide
    exact ⟨hlimits, hiff, hdummy, hfail⟩
  · rintro ⟨hlimits, hassigned, hdummy, hfail⟩
    obtain ⟨found, n, hiff, heq⟩ := execCheckMultiSig_eq checker henc hargs hlimits
    obtain rfl : found = fSuccess := Bool.eq_iff_iff.mpr (hiff.trans hassigned.symm)
    exact ⟨_, heq.trans (finishMultiSig_eq_returned.mpr ⟨rfl, hdummy, hfail⟩), rfl⟩

end Operation

/-- A stack for `CHECKMULTISIG`: one signature, some keys, and the value that is removed last. -/
def toyMultiSig (dummy : Bytes) (keys : List Bytes) : Machine :=
  .start ([UInt8.ofNat keys.length] :: (keys ++ [1] :: [[30], dummy, [7]])) []

theorem checkMultiSig_yields_oneOfTwo :
    MultiSigArguments 0 [[20], [21]] [[30]] [] [[7]] (toyMultiSig [] [[20], [21]]).stack ∧
    ∃ m', execOp toyScriptLib 0 (toyChecker 7) (.checkMultiSig false)
        (toyMultiSig [] [[20], [21]]) = (.returned (), m') ∧ m'.stack = [[1], [7]] := by
  have hargs : MultiSigArguments 0 [[20], [21]] [[30]] [] [[7]]
      (toyMultiSig [] [[20], [21]]).stack :=
    ⟨⟨[2], [1], by decide, by decide, by decide⟩, by decide⟩
  have henc : EncodingsPass toyScriptLib 0 [[30]] [[20], [21]] :=
    ⟨by decide, by decide⟩
  have hassigned : SigsAssigned (toyChecker 7) (multiSigCode [] [[30]]) [[30]] [[20], [21]] :=
    ⟨[[20]], by decide, .cons rfl .nil⟩
  exact ⟨hargs, ((checkMultiSig_yields henc hargs).2 true).mpr
    ⟨⟨by decide, by decide⟩, iff_of_true rfl hassigned, by decide, by decide⟩⟩

/-- A signature that verifies does not help if the value removed last is not empty. -/
theorem checkMultiSig_dummy_refused :
    EncodingsPass toyScriptLib SCRIPT_VERIFY_NULLDUMMY [[30]] [[20]] ∧
    MultiSigArguments SCRIPT_VERIFY_NULLDUMMY [[20]] [[30]] [1] [[7]]
      (toyMultiSig [1] [[20]]).stack ∧
    SigsAssigned (toyChecker 7) (multiSigCode [] [[30]]) [[30]] [[20]] ∧
    (execOp toyScriptLib SCRIPT_VERIFY_NULLDUMMY (toyChecker 7) (.checkMultiSig false)
      (toyMultiSig [1] [[20]])).1 = .refused :=
  ⟨⟨by decide, by decide⟩, ⟨⟨[1], [1], by decide, by decide, by decide⟩, by decide⟩,
    ⟨[[20]], by decide, .cons rfl .nil⟩, by decide⟩

end Jumpcoin
