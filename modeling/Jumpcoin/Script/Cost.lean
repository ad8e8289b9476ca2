import Jumpcoin.Script.ScriptNum

/-!
# The cost of scripts

The limits of the interpreter: sizes of the stack and of its elements, and the number of signature
checks. The last is bounded in two ways. Every check is paid for with an operation, of which there
are at most 201. And it has been counted by the scan `GetSigOpCount`, which sees the byte code
only: where the scan takes the number of keys of a multisignature from the opcode before it, that
opcode has just pushed the number.
-/

namespace Jumpcoin

open Codec Check Eval List

/-! ## Numbers -/

namespace CScriptNum

lemma natAbs_ofVch_lt {vch : Bytes} {fRequireMinimal : Bool} {bn : Int}
    (h : ofVch vch fRequireMinimal nDefaultMaxNumSize = some bn) : bn.natAbs < 2 ^ 33 := by
  unfold ofVch nDefaultMaxNumSize at h
  split_ifs at h with hlong hminimal
  obtain rfl : setVch vch = bn := by simpa using h
  have hpow : 256 ^ vch.length ≤ 256 ^ 4 := Nat.pow_le_pow_right (by decide) (by omega)
  have := natAbs_setVch_lt vch
  omega

end CScriptNum

lemma natAbs_numOfBool_le (b : Bool) : (numOfBool b).natAbs ≤ 1 := by
  cases b <;> decide

lemma UnaryOp.natAbs_apply_lt (op : UnaryOp) {bn : Int} (h : bn.natAbs < 2 ^ 33) :
    (op.apply bn).natAbs < 2 ^ 64 := by
  have hbool := natAbs_numOfBool_le
  cases op <;> simp only [UnaryOp.apply] <;> grind

lemma BinaryOp.natAbs_apply_lt (op : BinaryOp) {bn1 bn2 : Int} (h1 : bn1.natAbs < 2 ^ 33)
    (h2 : bn2.natAbs < 2 ^ 33) : (op.apply bn1 bn2).natAbs < 2 ^ 64 := by
  have hbool := natAbs_numOfBool_le
  cases op <;> simp only [BinaryOp.apply] <;> grind

/-! ## What an operation may do -/

/-- No element is larger than the limit. -/
structure Machine.Elements (m : Machine) : Prop where
  stack : ∀ vch ∈ m.stack, vch.length ≤ MAX_SCRIPT_ELEMENT_SIZE
  altstack : ∀ vch ∈ m.altstack, vch.length ≤ MAX_SCRIPT_ELEMENT_SIZE

/-- At most `k` signatures are checked, no operation is counted, the position stays, and so does the
limit of the elements. -/
structure Within (k : Nat) (m m' : Machine) : Prop where
  pc : m'.pc = m.pc
  nOpCount : m'.nOpCount = m.nOpCount
  checks : m'.nSigChecks ≤ m.nSigChecks + k
  elements : m.Elements → m'.Elements

namespace Within

variable {j k : Nat} {m m₁ m' : Machine} {serror : ScriptError} {ok : Bool}

lemma refl (k : Nat) (m : Machine) : Within k m m := ⟨rfl, rfl, by omega, id⟩

lemma trans (h : Within j m m₁) (h' : Within k m₁ m') : Within (j + k) m m' where
  pc := h'.pc.trans h.pc
  nOpCount := h'.nOpCount.trans h.nOpCount
  checks := by
    have := h.checks
    have := h'.checks
    omega
  elements hm := h'.elements (h.elements hm)

lemma fail {α : Type} (serror : ScriptError) (m : Machine) :
    Within k m ((Eval.fail serror : Eval α) m).2 :=
  ⟨rfl, rfl, by simp [Eval.fail, refuse], fun hm => ⟨hm.stack, hm.altstack⟩⟩

/-- The elements of a new stack are old ones or small. -/
lemma setStack {stack : List Bytes}
    (h : m.Elements → ∀ vch ∈ stack, vch ∈ m.stack ∨ vch.length ≤ MAX_SCRIPT_ELEMENT_SIZE) :
    Within k m { m with stack := stack } where
  pc := rfl
  nOpCount := rfl
  checks := by simp
  elements hm := ⟨fun vch hvch => (h hm vch hvch).elim (hm.stack vch) id, hm.altstack⟩

lemma check_bind {β : Type} {f : Unit → Eval β}
    (h : ok = true → Within k m (f () m).2) : Within k m ((check ok serror >>= f) m).2 := by
  cases ok with
  | true => exact h rfl
  | false => exact fail serror m

lemma check : Within k m (Eval.check ok serror m).2 := by
  cases ok with
  | true => exact refl k m
  | false => exact fail serror m

lemma require_bind {α β : Type} {o : Option α} {f : α → Eval β}
    (h : ∀ a, o = some a → Within k m (f a m).2) :
    Within k m (((Check.require o : Eval α) >>= f) m).2 := by
  cases o with
  | none => exact refl k m
  | some a => exact h a rfl

end Within

lemma length_vchOfBool (b : Bool) : (vchOfBool b).length ≤ MAX_SCRIPT_ELEMENT_SIZE := by
  cases b <;> decide

lemma length_getvch_le {value : Int} (h : value.natAbs < 2 ^ 64) :
    (CScriptNum.getvch value).length ≤ MAX_SCRIPT_ELEMENT_SIZE :=
  ((CScriptNum.length_getvch_le_iff value 9).mpr (by omega)).trans (by decide)

variable {β : Type}

lemma getStack_bind (f : List Bytes → Eval β) (m : Machine) :
    (getStack >>= f) m = f m.stack m := rfl

lemma setStack_bind (stack : List Bytes) (f : Unit → Eval β) (m : Machine) :
    (setStack stack >>= f) m = f () { m with stack := stack } := rfl

lemma getCodeHash_bind (f : CScript → Eval β) (m : Machine) :
    (getCodeHash >>= f) m = f m.codeHash m := rfl

lemma check_bind_apply (ok : Bool) (serror : ScriptError) (f : Unit → Eval β) (m : Machine) :
    (check ok serror >>= f) m = if ok then f () m else fail serror m := by
  cases ok <;> rfl

lemma countKeys_bind_apply (n : Nat) (f : Unit → Eval β) (m : Machine) :
    (countKeys n >>= f) m =
      if m.nOpCount + n ≤ MAX_OPS_PER_SCRIPT then f () { m with nOpCount := m.nOpCount + n }
      else (.refused, { m with nOpCount := m.nOpCount + n, serror := .opCount }) := by
  have hcount : countKeys n m =
      check (decide (m.nOpCount + n ≤ MAX_OPS_PER_SCRIPT)) .opCount
        { m with nOpCount := m.nOpCount + n } := rfl
  split_ifs with h
  · rw [decide_eq_true h] at hcount
    exact bind_returned hcount
  · rw [decide_eq_false h] at hcount
    exact bind_refused hcount

section Operations

variable {lib : ScriptLib} {flags : Nat} {checker : SignatureChecker} {m m' : Machine} {k : Nat}
  {m₁ : Machine}

lemma onStack_within {f : List Bytes → Option (List Bytes)}
    (h : m.Elements → ∀ stack, f m.stack = some stack →
      ∀ vch ∈ stack, vch ∈ m.stack ∨ vch.length ≤ MAX_SCRIPT_ELEMENT_SIZE) :
    Within 0 m (onStack f m).2 := by
  rw [onStack, bind_returned (show getStack m = (.returned m.stack, m) from rfl)]
  cases hf : f m.stack with
  | none => exact .fail _ _
  | some stack => exact .setStack fun hm => h hm stack hf

lemma popVerified_within (serror : ScriptError) : Within 0 m (popVerified serror m).2 := by
  rw [popVerified, bind_returned (show getStack m = (.returned m.stack, m) from rfl)]
  cases hstack : m.stack with
  | nil => exact .fail _ _
  | cons vch stack =>
    refine .check_bind fun _ => .setStack fun _ vch' hvch => .inl ?_
    simp [hstack, hvch]

/-- An operation that may have to verify its result. -/
lemma verified_within (h : Within k m m₁) (verify : Bool) (serror : ScriptError) :
    Within k m ((if verify then popVerified serror else pure () : Eval Unit) m₁).2 := by
  cases verify with
  | true => exact h.trans (popVerified_within serror)
  | false => exact h

variable {stack : List Bytes} {r : Outcome Unit × Machine} {verify : Bool} {j k : Nat} {α : Type}

/-- A rearranged stack has old elements and sizes. -/
lemma StackOp.mem_apply {op : StackOp} {stack' : List Bytes} (hlen : stack.length ≤ 1000)
    (hsmall : ∀ vch ∈ stack, vch.length ≤ MAX_SCRIPT_ELEMENT_SIZE)
    (h : op.apply stack = some stack') :
    ∀ vch ∈ stack', vch ∈ stack ∨ vch.length ≤ MAX_SCRIPT_ELEMENT_SIZE := by
  cases op with
  | depth =>
    obtain rfl : CScriptNum.getvch stack.length :: stack = stack' := by
      simpa [StackOp.apply] using h
    intro vch hvch
    rcases mem_cons.mp hvch with rfl | hvch
    · exact .inr (length_getvch_le (by omega))
    · exact .inl hvch
  | size =>
    cases stack with
    | nil => simp [StackOp.apply] at h
    | cons x stack =>
      obtain rfl : CScriptNum.getvch x.length :: x :: stack = stack' := by
        simpa [StackOp.apply] using h
      have hx : x.length ≤ 520 := hsmall x (by simp)
      intro vch hvch
      rcases mem_cons.mp hvch with rfl | hvch
      · exact .inr (length_getvch_le (by omega))
      · exact .inl hvch
  | _ =>
    intro vch hvch
    unfold StackOp.apply at h
    grind

lemma execPick_within (roll : Bool) : Within 0 m (execPick flags roll m).2 := by
  unfold execPick
  rw [getStack_bind]
  rcases hstack : m.stack with _ | ⟨vch, _ | ⟨x, stack⟩⟩
  · exact .fail _ _
  · exact .fail _ _
  · refine .require_bind fun bn _ => ?_
    have hpop : Within 0 m { m with stack := x :: stack } :=
      .setStack fun _ y hy => .inl (by rw [hstack]; exact mem_cons_of_mem _ hy)
    refine hpop.trans (k := 0) (.check_bind fun _ => ?_)
    refine .require_bind fun y hy => .setStack fun _ z hz => .inl ?_
    have herase := (x :: stack).eraseIdx_subset (k := (CScriptNum.getInt bn).toNat)
    cases roll <;> grind

lemma execEqual_within (verify : Bool) : Within 0 m (execEqual verify m).2 := by
  unfold execEqual
  rw [getStack_bind]
  rcases hstack : m.stack with _ | ⟨vch2, _ | ⟨vch1, stack⟩⟩
  · exact .fail _ _
  · exact .fail _ _
  · refine verified_within (.setStack fun _ y hy => ?_) verify _
    have := length_vchOfBool (vch1 == vch2)
    grind

lemma execUnary_within (op : UnaryOp) : Within 0 m (execUnary flags op m).2 := by
  unfold execUnary
  rw [getStack_bind]
  rcases hstack : m.stack with _ | ⟨vch, stack⟩
  · exact .fail _ _
  · refine .require_bind fun bn hbn => .setStack fun _ y hy => ?_
    have := length_getvch_le (op.natAbs_apply_lt (CScriptNum.natAbs_ofVch_lt hbn))
    grind

lemma execBinary_within (op : BinaryOp) : Within 0 m (execBinary flags op m).2 := by
  unfold execBinary
  rw [getStack_bind]
  rcases hstack : m.stack with _ | ⟨vch2, _ | ⟨vch1, stack⟩⟩
  · exact .fail _ _
  · exact .fail _ _
  · refine .require_bind fun bn1 hbn1 => .require_bind fun bn2 hbn2 => ?_
    have hsmall := length_getvch_le (op.natAbs_apply_lt (CScriptNum.natAbs_ofVch_lt hbn1)
      (CScriptNum.natAbs_ofVch_lt hbn2))
    have hpush : Within 0 m
        { m with stack := CScriptNum.getvch (op.apply bn1 bn2) :: stack } :=
      .setStack fun _ y hy => by grind
    split_ifs
    · exact hpush.trans (popVerified_within _)
    · exact hpush

lemma execWithin_within : Within 0 m (execWithin flags m).2 := by
  unfold execWithin
  rw [getStack_bind]
  rcases hstack : m.stack with _ | ⟨vch3, _ | ⟨vch2, _ | ⟨vch1, stack⟩⟩⟩
  · exact .fail _ _
  · exact .fail _ _
  · exact .fail _ _
  · refine .require_bind fun bn1 _ => .require_bind fun bn2 _ => .require_bind fun bn3 _ => ?_
    refine .setStack fun _ y hy => ?_
    have := length_vchOfBool (decide (bn2 ≤ bn1) && decide (bn1 < bn3))
    grind

lemma execHash_within (op : HashOp) : Within 0 m (execHash lib op m).2 := by
  refine onStack_within fun _ stack' hstack' y hy => ?_
  rcases hstack : m.stack with _ | ⟨vch, stack⟩
  · simp [hstack] at hstack'
  · have hsmall : (op.apply lib vch).length ≤ 32 := by cases op <;> simp [HashOp.apply]
    have hlimit : 32 ≤ MAX_SCRIPT_ELEMENT_SIZE := by decide
    grind

lemma execIf_within (negate : Bool) : Within 0 m (execIf flags negate m).2 := by
  unfold execIf
  split_ifs
  · rcases hstack : m.stack with _ | ⟨vch, stack⟩
    · exact .fail _ _
    · simp only
      split_ifs
      · exact .fail _ _
      · refine ⟨rfl, rfl, by simp, fun hm => ⟨fun y hy => hm.stack y ?_, hm.altstack⟩⟩
        rw [hstack]
        exact mem_cons_of_mem _ hy
  · exact ⟨rfl, rfl, by simp, fun hm => ⟨hm.stack, hm.altstack⟩⟩

lemma execElse_within : Within 0 m (execElse m).2 := by
  unfold execElse
  split
  · exact .fail _ _
  · exact ⟨rfl, rfl, by simp, fun hm => ⟨hm.stack, hm.altstack⟩⟩

lemma execEndIf_within : Within 0 m (execEndIf m).2 := by
  unfold execEndIf
  split
  · exact .fail _ _
  · exact ⟨rfl, rfl, by simp, fun hm => ⟨hm.stack, hm.altstack⟩⟩

lemma execToAltStack_within : Within 0 m (execToAltStack m).2 := by
  unfold execToAltStack
  rcases hstack : m.stack with _ | ⟨vch, stack⟩
  · exact .fail _ _
  · refine ⟨rfl, rfl, by simp, fun hm => ?_⟩
    obtain ⟨hstackSmall, haltSmall⟩ := hm
    constructor <;> grind

lemma execFromAltStack_within : Within 0 m (execFromAltStack m).2 := by
  unfold execFromAltStack
  rcases haltstack : m.altstack with _ | ⟨vch, altstack⟩
  · exact .fail _ _
  · refine ⟨rfl, rfl, by simp, fun hm => ?_⟩
    obtain ⟨hstackSmall, haltSmall⟩ := hm
    constructor <;> grind

/-- A lock time operation that is switched on. -/
lemma lockTime_within {f : Int → Eval Unit} (hf : ∀ n, Within 0 m (f n m).2) :
    Within 0 m ((do
      match ← getStack with
      | [] => fail .invalidStackOperation
      | vch :: _ =>
        let n ← toLockTime flags vch
        check (!decide (n < 0)) .negativeLocktime
        f n : Eval Unit) m).2 := by
  rw [getStack_bind]
  cases m.stack with
  | nil => exact .fail _ _
  | cons vch stack => exact .require_bind fun n _ => .check_bind fun _ => hf n

lemma execCheckLockTimeVerify_within : Within 0 m (execCheckLockTimeVerify flags checker m).2 := by
  unfold execCheckLockTimeVerify
  split_ifs
  · exact .check
  · exact lockTime_within fun _ => .check

lemma execCheckSequenceVerify_within : Within 0 m (execCheckSequenceVerify flags checker m).2 := by
  unfold execCheckSequenceVerify
  split_ifs
  · exact .check
  · refine lockTime_within fun n => ?_
    split_ifs
    · exact .refl 0 m
    · exact .check

/-! ## Signature checks -/

/-- Nothing but the number of signature checks and the error is different. -/
def OnlyChecks (k : Nat) (m m' : Machine) : Prop :=
  ∃ serror n, n ≤ k ∧ m' = { m with serror := serror, nSigChecks := m.nSigChecks + n }

lemma OnlyChecks.refl (k : Nat) (m : Machine) : OnlyChecks k m m := ⟨m.serror, 0, by omega, rfl⟩

lemma OnlyChecks.trans (h : OnlyChecks j m m₁)
    (h' : OnlyChecks k m₁ m') : OnlyChecks (j + k) m m' := by
  obtain ⟨serror, n, hn, rfl⟩ := h
  obtain ⟨serror', n', hn', rfl⟩ := h'
  exact ⟨serror', n + n', by omega, by simp [Nat.add_assoc]⟩

lemma OnlyChecks.mono (h : OnlyChecks j m m') (hjk : j ≤ k) : OnlyChecks k m m' := by
  obtain ⟨serror, n, hn, rfl⟩ := h
  exact ⟨serror, n, by omega, rfl⟩

lemma OnlyChecks.seq {x : Eval α} {f : α → Eval β} (hx : Relates (OnlyChecks j) x)
    (hf : ∀ a, Relates (OnlyChecks k) (f a)) : Relates (OnlyChecks (j + k)) (x >>= f) := by
  refine fun m => bind_state ((hx m).mono (Nat.le_add_right j k)) fun a m₁ hxs => ?_
  have hfirst := hx m
  rw [hxs] at hfirst
  exact hfirst.trans (hf a m₁)

lemma OnlyChecks.within (h : OnlyChecks k m m') : Within k m m' := by
  obtain ⟨serror, n, hn, rfl⟩ := h
  exact ⟨rfl, rfl, by simpa using hn, fun hm => ⟨hm.stack, hm.altstack⟩⟩

lemma checkNone_onlyChecks (o : Option ScriptError) : Relates (OnlyChecks 0) (checkNone o) := by
  intro m
  cases o with
  | none => exact .refl 0 m
  | some serror => exact ⟨serror, 0, le_rfl, rfl⟩

lemma callCheckSig_onlyChecks (vchSig vchPubKey : Bytes) (scriptCode : CScript) :
    Relates (OnlyChecks 1) (callCheckSig lib flags checker vchSig vchPubKey scriptCode) := by
  refine OnlyChecks.seq (j := 0) (k := 1) (checkNone_onlyChecks _) fun _ => ?_
  refine OnlyChecks.seq (j := 0) (k := 1) (checkNone_onlyChecks _) fun _ => ?_
  exact fun m => ⟨m.serror, 1, le_rfl, rfl⟩

/-- Every key is used at most once. -/
lemma checkMultiSigLoop_onlyChecks (scriptCode : CScript) (keys sigs : List Bytes) :
    Relates (OnlyChecks keys.length)
      (checkMultiSigLoop lib flags checker scriptCode keys sigs) := by
  induction keys generalizing sigs with
  | nil =>
    cases sigs with
    | nil => exact fun m => .refl _ m
    | cons vchSig sigs => exact fun m => .refl _ m
  | cons vchPubKey keys ih =>
    cases sigs with
    | nil => exact fun m => .refl _ m
    | cons vchSig sigs =>
      rw [length_cons, Nat.add_comm]
      refine OnlyChecks.seq (callCheckSig_onlyChecks _ _ _) fun fOk => ?_
      generalize (if fOk then sigs else vchSig :: sigs) = sigs'
      dsimp only
      split_ifs
      · exact fun m => .refl _ m
      · exact ih sigs'

/-- After checks that left the stack alone, the result replaces the arguments. -/
lemma OnlyChecks.bind_within {x : Eval α} {f : α → Eval Unit} (hx : OnlyChecks k m (x m).2)
    (hf : ∀ a m₁, m₁.stack = m.stack → Within 0 m₁ (f a m₁).2) : Within k m ((x >>= f) m).2 := by
  refine bind_state hx.within fun a m₁ hxs => ?_
  rw [hxs] at hx
  obtain ⟨serror, n, hn, rfl⟩ := id hx
  exact hx.within.trans (hf a _ rfl)

lemma execCheckSig_within (verify : Bool) :
    Within 1 m (execCheckSig lib flags checker verify m).2 := by
  unfold execCheckSig
  rw [getStack_bind]
  rcases hstack : m.stack with _ | ⟨vchPubKey, _ | ⟨vchSig, stack⟩⟩
  · exact .fail _ _
  · exact .fail _ _
  · refine (callCheckSig_onlyChecks _ _ _ m).bind_within fun fSuccess m₁ hm₁ =>
      .check_bind fun _ => ?_
    refine verified_within (.setStack fun _ y hy => ?_) verify _
    have := length_vchOfBool fSuccess
    grind

lemma finishMultiSig_within (verify fSuccess : Bool) (sigs : List Bytes)
    (hstack : ∀ vch ∈ stack, vch ∈ m.stack) :
    Within 0 m (finishMultiSig flags verify fSuccess sigs stack m).2 := by
  refine .check_bind fun _ => ?_
  cases stack with
  | nil => exact .fail _ _
  | cons dummy stack =>
    refine .check_bind fun _ => verified_within (.setStack fun _ y hy => ?_) verify _
    have := length_vchOfBool fSuccess
    grind

lemma execMultiSigKeys_within (verify : Bool) (nKeysCount : Nat)
    (hstack : ∀ vch ∈ stack, vch ∈ m.stack) :
    Within nKeysCount m (execMultiSigKeys lib flags checker verify nKeysCount stack m).2 := by
  unfold execMultiSigKeys
  have hdrop : ∀ vch ∈ stack.drop nKeysCount, vch ∈ m.stack := fun vch hvch =>
    hstack vch (mem_of_mem_drop hvch)
  rcases hrest : stack.drop nKeysCount with _ | ⟨vch, stack'⟩
  · exact .fail _ _
  · refine .require_bind fun bn _ => .check_bind fun _ => .check_bind fun _ => ?_
    rw [getCodeHash_bind]
    refine OnlyChecks.bind_within (((checkMultiSigLoop_onlyChecks _ _ _) m).mono ?_) ?_
    · simp
    · intro fSuccess m₁ hm₁
      refine finishMultiSig_within _ _ _ fun vch' hvch => ?_
      rw [hm₁]
      exact hdrop vch' (by rw [hrest]; exact mem_cons_of_mem _ (mem_of_mem_drop hvch))

/-- How `CHECKMULTISIG` ends: it fails before it checks a signature, or it has counted the keys as
operations and checks no more signatures than there are keys. -/
lemma execCheckMultiSig_ends (h : execCheckMultiSig lib flags checker verify m = r) :
    (r.1 ≠ .returned () ∧ r.2.nSigChecks = m.nSigChecks) ∨
      ∃ vch stack bn, m.stack = vch :: stack ∧
        CScriptNum.ofVch vch (hasFlag flags SCRIPT_VERIFY_MINIMALDATA)
          CScriptNum.nDefaultMaxNumSize = some bn ∧
        (CScriptNum.getInt bn).toNat ≤ MAX_PUBKEYS_PER_MULTISIG ∧
        m.nOpCount + (CScriptNum.getInt bn).toNat ≤ MAX_OPS_PER_SCRIPT ∧
        Within (CScriptNum.getInt bn).toNat
          { m with nOpCount := m.nOpCount + (CScriptNum.getInt bn).toNat } r.2 := by
  subst h
  unfold execCheckMultiSig
  rw [getStack_bind]
  rcases hstack : m.stack with _ | ⟨vch, stack⟩
  · exact .inl ⟨by simp [fail, refuse], rfl⟩
  · cases hbn : CScriptNum.ofVch vch (hasFlag flags SCRIPT_VERIFY_MINIMALDATA)
      CScriptNum.nDefaultMaxNumSize with
    | none =>
      simp only [toNum, hbn, require_none, halt_bind]
      exact .inl ⟨by simp [halt], rfl⟩
    | some bn =>
      simp only [toNum, hbn, require_some, pure_bind]
      rw [check_bind_apply]
      split_ifs with hrange
      · rw [countKeys_bind_apply]
        split_ifs with hcount
        · refine .inr ⟨vch, stack, bn, rfl, hbn, ?_, hcount, ?_⟩
          · simp only [Bool.not_eq_true', Bool.or_eq_false_iff, decide_eq_false_iff_not] at hrange
            omega
          · rw [← hstack]
            refine execMultiSigKeys_within verify _ fun y hy => ?_
            simp [hstack, hy]
        · exact .inl ⟨by simp, rfl⟩
      · exact .inl ⟨by simp [fail, refuse], rfl⟩

/-! ## Opcodes -/

variable {opcode : UInt8} {op : Op}

/-- Besides the numbers, the switch has the opcodes of the table. -/
lemma opOf_cases (opcode : UInt8) :
    (∃ n : Int, opOf opcode = .number n ∧ n.natAbs < 2 ^ 64) ∨ opOf opcode = .badOpcode ∨
      (opcode, opOf opcode) ∈ opTable := by
  unfold opOf
  split_ifs with hnumber
  · have hlt : opcode.toNat < 256 := opcode.toNat_lt
    have hone : OP_1.toNat = 0x51 := rfl
    exact .inl ⟨_, rfl, by omega⟩
  · cases hlookup : opTable.lookup opcode with
    | none => exact .inr (.inl rfl)
    | some op =>
      obtain ⟨l₁, l₂, heq, -⟩ := lookup_eq_some_iff.mp hlookup
      exact .inr (.inr (by simp [heq]))

lemma mem_opTable (hnumber : ∀ n, op ≠ .number n) (hbad : op ≠ .badOpcode)
    (h : opOf opcode = op) : (opcode, op) ∈ opTable := by
  rcases opOf_cases opcode with ⟨n, hn, -⟩ | hbad' | hmem
  · exact absurd (h.symm.trans hn) (hnumber n)
  · exact absurd (h.symm.trans hbad') hbad
  · exact h ▸ hmem

lemma opOf_checkSig (h : opOf opcode = .checkSig verify) :
    opcode = OP_CHECKSIG ∨ opcode = OP_CHECKSIGVERIFY := by
  have htable : ∀ entry ∈ opTable, ∀ verify, entry.2 = .checkSig verify →
      entry.1 = OP_CHECKSIG ∨ entry.1 = OP_CHECKSIGVERIFY := by decide
  exact htable _ (mem_opTable (by simp) (by simp) h) verify rfl

lemma opOf_checkMultiSig (h : opOf opcode = .checkMultiSig verify) :
    opcode = OP_CHECKMULTISIG ∨ opcode = OP_CHECKMULTISIGVERIFY := by
  have htable : ∀ entry ∈ opTable, ∀ verify, entry.2 = .checkMultiSig verify →
      entry.1 = OP_CHECKMULTISIG ∨ entry.1 = OP_CHECKMULTISIGVERIFY := by decide
  exact htable _ (mem_opTable (by simp) (by simp) h) verify rfl

/-- An opcode for a small number, as the scan reads it. -/
lemma opOf_number (h₁ : OP_1 ≤ opcode) (h₁₆ : opcode ≤ OP_16) :
    opOf opcode = .number (decodeOpN opcode) := by
  have hle : OP_1.toNat ≤ opcode.toNat := UInt8.le_iff_toNat_le.mp h₁
  have hone : OP_1.toNat = 0x51 := rfl
  have hne : opcode ≠ 0 := by
    rintro rfl
    simp [hone] at hle
  unfold opOf decodeOpN
  rw [if_pos (.inr ⟨h₁, h₁₆⟩), if_neg hne]
  congr 1
  omega

lemma execOp_within (hsig : ∀ verify, op ≠ .checkSig verify)
    (hmulti : ∀ verify, op ≠ .checkMultiSig verify)
    (hnumber : ∀ n, op = .number n → n.natAbs < 2 ^ 64)
    (hlen : m.stack.length ≤ 1000) : Within 0 m (execOp lib flags checker op m).2 := by
  cases op with
  | number n =>
    refine onStack_within fun _ stack hstack vch hvch => ?_
    have := length_getvch_le (hnumber n rfl)
    grind
  | nop => exact .refl 0 m
  | checkLockTimeVerify => exact execCheckLockTimeVerify_within
  | checkSequenceVerify => exact execCheckSequenceVerify_within
  | nopN => exact .check
  | ifThen negate => exact execIf_within negate
  | ifElse => exact execElse_within
  | endIf => exact execEndIf_within
  | verify => exact popVerified_within _
  | opReturn => exact .fail _ _
  | toAltStack => exact execToAltStack_within
  | fromAltStack => exact execFromAltStack_within
  | stack op =>
    exact onStack_within fun hm stack hstack => StackOp.mem_apply hlen hm.stack hstack
  | pick roll => exact execPick_within roll
  | equal verify => exact execEqual_within verify
  | unary op => exact execUnary_within op
  | binary op => exact execBinary_within op
  | within => exact execWithin_within
  | hash op => exact execHash_within op
  | codeSeparator => exact ⟨rfl, rfl, le_rfl, fun hm => ⟨hm.stack, hm.altstack⟩⟩
  | checkSig verify => exact absurd rfl (hsig verify)
  | checkMultiSig verify => exact absurd rfl (hmulti verify)
  | badOpcode => exact .fail _ _

variable {data : Bytes}

/-- What an opcode may do: check no signature, one, or those of a multisignature. -/
lemma execOpcode_ends (hdata : data.length ≤ MAX_SCRIPT_ELEMENT_SIZE) (hlen : m.stack.length ≤ 1000)
    (hr : execOpcode lib flags checker opcode data m = r) :
    Within 0 m r.2 ∨ ((opcode = OP_CHECKSIG ∨ opcode = OP_CHECKSIGVERIFY) ∧ Within 1 m r.2) ∨
      ((opcode = OP_CHECKMULTISIG ∨ opcode = OP_CHECKMULTISIGVERIFY) ∧ m.fExec = true ∧
        ∃ verify, execCheckMultiSig lib flags checker verify m = r) := by
  subst hr
  have hnumber : ∀ n, opOf opcode = .number n → n.natAbs < 2 ^ 64 := by
    intro n hn
    rcases opOf_cases opcode with ⟨n', hn', hlt⟩ | hbad | hmem
    · obtain rfl : n' = n := by simpa [hn'] using hn
      exact hlt
    · simp [hbad] at hn
    · have htable : ∀ entry ∈ opTable, ∀ n, entry.2 ≠ .number n := by
        intro entry hentry n
        fin_cases hentry <;> simp
      exact absurd hn (htable _ hmem n)
  unfold execOpcode
  split_ifs with hpush hrun
  · refine .inl (.check_bind fun _ => onStack_within fun _ stack hstack vch hvch => ?_)
    grind
  · by_cases hsig : ∃ verify, opOf opcode = .checkSig verify
    · obtain ⟨verify, hop⟩ := hsig
      rw [hop]
      exact .inr (.inl ⟨opOf_checkSig hop, execCheckSig_within verify⟩)
    · by_cases hmulti : ∃ verify, opOf opcode = .checkMultiSig verify
      · obtain ⟨verify, hop⟩ := hmulti
        refine .inr (.inr ⟨opOf_checkMultiSig hop, ?_, verify, by rw [hop]; rfl⟩)
        rcases opOf_checkMultiSig hop with rfl | rfl
        · simpa [OP_ENDIF, OP_CHECKMULTISIG] using hrun
        · simpa [OP_ENDIF, OP_CHECKMULTISIGVERIFY] using hrun
      · exact .inl (execOp_within (fun verify h => hsig ⟨verify, h⟩)
          (fun verify h => hmulti ⟨verify, h⟩) hnumber hlen)
  · exact .inl (.refl 0 m)

/-! ## A turn of the loop -/

def Machine.advance (m : Machine) (opcode : UInt8) (pc : CScript) : Machine :=
  { m with pc := pc, nOpCount := m.nOpCount + if OP_16 < opcode then 1 else 0 }

lemma countOp_bind_apply (opcode : UInt8) (pc : CScript) (f : Unit → Eval β) (m : Machine) :
    (countOp opcode >>= f) { m with pc := pc } =
      if OP_16 < opcode → m.nOpCount + 1 ≤ MAX_OPS_PER_SCRIPT then f () (m.advance opcode pc)
      else (.refused, { m.advance opcode pc with serror := .opCount }) := by
  unfold countOp Machine.advance
  by_cases hcounts : OP_16 < opcode
  · simp only [hcounts, if_true, forall_const]
    exact countKeys_bind_apply 1 f _
  · simp only [hcounts, if_false, false_imp_iff, if_true]
    rfl

variable {pc : CScript}

/-- A turn stops before it executes the operation, or it executes it and checks the sizes. -/
lemma evalOp_eq (lib : ScriptLib) (flags : Nat) (checker : SignatureChecker)
    (hop : getOp.run m.pc = some ((opcode, data), pc)) :
    ((evalOp lib flags checker m).1 ≠ .returned () ∧
        (evalOp lib flags checker m).2.nSigChecks = m.nSigChecks) ∨
      (data.length ≤ MAX_SCRIPT_ELEMENT_SIZE ∧
        (OP_16 < opcode → m.nOpCount + 1 ≤ MAX_OPS_PER_SCRIPT) ∧
        evalOp lib flags checker m =
          (execOpcode lib flags checker opcode data >>= fun _ => checkStackSize)
            (m.advance opcode pc)) := by
  have hnext : nextOp m = (.returned (opcode, data), { m with pc := pc }) := by
    simp only [nextOp, hop]
  unfold evalOp
  rw [bind_returned hnext]
  dsimp only
  rw [check_bind_apply]
  split_ifs with hdata
  · rw [countOp_bind_apply]
    split_ifs with hcount
    · rw [check_bind_apply]
      split_ifs with hdisabled
      · exact .inr ⟨by simpa using hdata, hcount, rfl⟩
      · exact .inl ⟨by simp [fail, refuse], rfl⟩
    · exact .inl ⟨by simp, rfl⟩
  · exact .inl ⟨by simp [fail, refuse], rfl⟩

/-- Between two turns: every signature check has been paid for with an operation, and the limits
are kept. -/
structure Machine.Sound (m : Machine) : Prop where
  paid : m.nSigChecks ≤ m.nOpCount
  limit : m.nOpCount ≤ MAX_OPS_PER_SCRIPT
  size : m.stack.length + m.altstack.length ≤ 1000
  elements : m.Elements

/-- If the last opcode pushes a small number and is executed, the number is on top of the stack. -/
def Machine.Follows (m : Machine) (lastOpcode : UInt8) : Prop :=
  OP_1 ≤ lastOpcode → lastOpcode ≤ OP_16 → m.fExec = true →
    ∃ stack, m.stack = CScriptNum.getvch (decodeOpN lastOpcode) :: stack

def sigOpCost (lastOpcode opcode : UInt8) : Nat :=
  if opcode = OP_CHECKSIG ∨ opcode = OP_CHECKSIGVERIFY then 1
  else if opcode = OP_CHECKMULTISIG ∨ opcode = OP_CHECKMULTISIGVERIFY then
    if OP_1 ≤ lastOpcode ∧ lastOpcode ≤ OP_16 then decodeOpN lastOpcode
    else MAX_PUBKEYS_PER_MULTISIG
  else 0

lemma sigOpCountLoop_succ (fuel : Nat) (lastOpcode : UInt8) (script : CScript) :
    sigOpCountLoop true (fuel + 1) lastOpcode script =
      match getOp.run script with
      | none => 0
      | some ((opcode, _), rest) =>
        sigOpCost lastOpcode opcode + sigOpCountLoop true fuel opcode rest := by
  rw [sigOpCountLoop]
  rcases getOp.run script with _ | ⟨⟨opcode, data⟩, rest⟩
  · rfl
  · simp [sigOpCost]

lemma checkStackSize_returned {u : Unit} (h : checkStackSize m = (.returned u, m')) :
    m' = m ∧ m.stack.length + m.altstack.length ≤ 1000 := by
  obtain ⟨hok, rfl⟩ := ensure_eq_returned.mp h
  exact ⟨rfl, by simpa using hok⟩

lemma check_nSigChecks (ok : Bool) (serror : ScriptError) (m : Machine) :
    (Eval.check ok serror m).2.nSigChecks = m.nSigChecks := by
  cases ok <;> rfl

variable {lastOpcode : UInt8} {fuel : Nat}

/-- The number of keys that the machine reads is the one that the scan has taken. -/
lemma keys_le_sigOpCost (hfollows : m.Follows lastOpcode) (hexec : m.fExec = true)
    (hop : opcode = OP_CHECKMULTISIG ∨ opcode = OP_CHECKMULTISIGVERIFY) {vch : Bytes}
    {fRequireMinimal : Bool} {bn : Int} (hstack : m.stack = vch :: stack)
    (hbn : CScriptNum.ofVch vch fRequireMinimal CScriptNum.nDefaultMaxNumSize = some bn)
    (hkeys : (CScriptNum.getInt bn).toNat ≤ MAX_PUBKEYS_PER_MULTISIG) :
    (CScriptNum.getInt bn).toNat ≤ sigOpCost lastOpcode opcode := by
  have hnot : ¬(opcode = OP_CHECKSIG ∨ opcode = OP_CHECKSIGVERIFY) := by
    rcases hop with rfl | rfl <;> decide
  rw [sigOpCost, if_neg hnot, if_pos hop]
  split_ifs with hlast
  · obtain ⟨stack', hstack'⟩ := hfollows hlast.1 hlast.2 hexec
    obtain rfl : CScriptNum.getvch (decodeOpN lastOpcode) = vch := by
      rw [hstack] at hstack'
      exact (cons.inj hstack').1.symm
    have hsmall : ∀ fRequireMinimal, ∀ n < 17, CScriptNum.ofVch (CScriptNum.getvch (n : Nat))
        fRequireMinimal CScriptNum.nDefaultMaxNumSize = some (n : Int) := by decide
    have hlt : decodeOpN lastOpcode < 17 := by
      have h16 : lastOpcode.toNat ≤ 0x60 := UInt8.le_iff_toNat_le.mp hlast.2
      have hone : OP_1.toNat = 0x51 := rfl
      unfold decodeOpN
      split_ifs <;> omega
    rw [hsmall fRequireMinimal _ hlt, Option.some.injEq] at hbn
    subst hbn
    unfold CScriptNum.getInt
    omega
  · exact hkeys

/-- The execution of an opcode in a turn, with the operation that pays for it already counted. -/
lemma execOpcode_turn (hdata : data.length ≤ MAX_SCRIPT_ELEMENT_SIZE)
    (hpaid : m.nSigChecks + (if OP_16 < opcode then 1 else 0) ≤ m.nOpCount)
    (hlimit : m.nOpCount ≤ MAX_OPS_PER_SCRIPT) (hlen : m.stack.length ≤ 1000)
    (helements : m.Elements) (hfollows : m.Follows lastOpcode)
    (hr : execOpcode lib flags checker opcode data m = r) :
    r.2.nSigChecks ≤ m.nSigChecks + sigOpCost lastOpcode opcode ∧
      r.2.nSigChecks ≤ MAX_OPS_PER_SCRIPT ∧
      (r.1 = .returned () → r.2.nSigChecks ≤ r.2.nOpCount ∧ r.2.nOpCount ≤ MAX_OPS_PER_SCRIPT ∧
        r.2.pc = m.pc ∧ r.2.Elements) := by
  rcases execOpcode_ends hdata hlen hr with hwithin | ⟨hsig, hwithin⟩ | ⟨hmulti, hexec, verify, heq⟩
  · have hchecks := hwithin.checks
    have hcount := hwithin.nOpCount
    exact ⟨by omega, by omega, fun _ =>
      ⟨by omega, by omega, hwithin.pc, hwithin.elements helements⟩⟩
  · have hchecks := hwithin.checks
    have hcount := hwithin.nOpCount
    have hcost : sigOpCost lastOpcode opcode = 1 := if_pos hsig
    have hpays : OP_16 < opcode := by rcases hsig with rfl | rfl <;> decide
    rw [if_pos hpays] at hpaid
    exact ⟨by omega, by omega, fun _ =>
      ⟨by omega, by omega, hwithin.pc, hwithin.elements helements⟩⟩
  · rcases execCheckMultiSig_ends heq with ⟨hstopped, hsame⟩ |
      ⟨vch, stack, bn, hstack, hbn, hkeys, hops, hwithin⟩
    · exact ⟨by omega, by omega, fun hreturned => absurd hreturned hstopped⟩
    · have hcost := keys_le_sigOpCost hfollows hexec hmulti hstack hbn hkeys
      have hchecks := hwithin.checks
      have hcount := hwithin.nOpCount
      simp only at hchecks hcount
      exact ⟨by omega, by omega, fun _ => ⟨by omega, by omega, hwithin.pc,
        hwithin.elements ⟨helements.stack, helements.altstack⟩⟩⟩

/-- A small number that is executed ends up on top of the stack. -/
lemma execOpcode_follows (hr : execOpcode lib flags checker opcode data m = (.returned (), m')) :
    m'.Follows opcode := by
  intro h₁ h₁₆ hexec
  have hnot : ¬opcode ≤ OP_PUSHDATA4 := fun h => absurd (UInt8.le_trans h₁ h) (by decide)
  have hnotIf : ¬OP_IF ≤ opcode := fun h => absurd (UInt8.le_trans h h₁₆) (by decide)
  unfold execOpcode at hr
  simp only [hnot, hnotIf, decide_false, Bool.and_false, Bool.false_and, Bool.or_false,
    Bool.false_eq_true, if_false, opOf_number h₁ h₁₆] at hr
  split_ifs at hr with hm
  · obtain rfl : { m with stack := CScriptNum.getvch (decodeOpN opcode) :: m.stack } = m' :=
      (Prod.mk.inj hr).2
    exact ⟨m.stack, rfl⟩
  · obtain rfl : m = m' := (Prod.mk.inj hr).2
    exact absurd hexec hm

/-- A turn of the loop checks no more signatures than the scan counts for its opcode, and no more
than there are operations. -/
lemma evalOp_turn (lib : ScriptLib) (flags : Nat) (checker : SignatureChecker) (hm : m.Sound)
    (hfollows : m.Follows lastOpcode) (hop : getOp.run m.pc = some ((opcode, data), pc)) :
    (evalOp lib flags checker m).2.nSigChecks ≤ m.nSigChecks + sigOpCost lastOpcode opcode ∧
      (evalOp lib flags checker m).2.nSigChecks ≤ MAX_OPS_PER_SCRIPT ∧
      ∀ m', evalOp lib flags checker m = (.returned (), m') →
        m'.Sound ∧ m'.pc = pc ∧ m'.Follows opcode := by
  have hpaid := hm.paid
  have hlimit := hm.limit
  rcases evalOp_eq lib flags checker hop with ⟨hstopped, hsame⟩ | ⟨hdata, hcount, heq⟩
  · refine ⟨by omega, by omega, fun m' hreturned => ?_⟩
    simp [hreturned] at hstopped
  · have hsize := hm.size
    have hcounted : m.nOpCount + (if OP_16 < opcode then 1 else 0) ≤ MAX_OPS_PER_SCRIPT := by
      split_ifs with hcounts
      · exact hcount hcounts
      · exact hlimit
    have hlen : m.stack.length ≤ 1000 := by omega
    obtain ⟨hcost, hmax, hreturns⟩ := execOpcode_turn (m := m.advance opcode pc) hdata
      (Nat.add_le_add_right hpaid _) hcounted hlen ⟨hm.elements.stack, hm.elements.altstack⟩
      hfollows rfl
    rw [heq]
    refine and_assoc.mp ⟨bind_state (P := fun m' : Machine => m'.nSigChecks ≤ _ ∧ m'.nSigChecks ≤ _)
      ⟨hcost, hmax⟩ fun _ m₁ hr => ?_, fun m' hreturned => ?_⟩
    · rw [checkStackSize, check_nSigChecks]
      rw [hr] at hcost hmax
      exact ⟨hcost, hmax⟩
    · obtain ⟨_, m₁, hr, hreturned⟩ := bind_eq_returned.mp hreturned
      rw [hr] at hreturns
      obtain ⟨rfl, hsize'⟩ := checkStackSize_returned hreturned
      obtain ⟨hpaid', hlimit', hpc, helements⟩ := hreturns rfl
      exact ⟨⟨hpaid', hlimit', hsize', helements⟩, hpc, execOpcode_follows hr⟩

/-! ## Whole scripts -/

/-- The operation before: a turn of the loop that completes. -/
def Turn (lib : ScriptLib) (flags : Nat) (checker : SignatureChecker) (m m' : Machine) : Prop :=
  m.pc ≠ [] ∧ evalOp lib flags checker m = (.returned (), m')

lemma evalOp_badOpcode (hop : getOp.run m.pc = none) :
    evalOp lib flags checker m = (.refused, { m with serror := .badOpcode }) := by
  have hnext : nextOp m = (.refused, { m with serror := .badOpcode }) := by
    simp only [nextOp, hop]
    rfl
  exact bind_refused hnext

/-- What a completed turn has done: the limits are kept, and an operation has been taken off. -/
lemma Turn.sound (h : Turn lib flags checker m m') (hm : m.Sound) :
    m'.Sound ∧ ∃ op, getOp.run m.pc = some (op, m'.pc) := by
  cases hop : getOp.run m.pc with
  | none => simp [Turn, evalOp_badOpcode hop] at h
  | some op =>
    obtain ⟨⟨opcode, data⟩, pc⟩ := op
    have hfollows : m.Follows OP_INVALIDOPCODE := fun _ h₁₆ => absurd h₁₆ (by decide)
    obtain ⟨hm', rfl, -⟩ := (evalOp_turn lib flags checker hm hfollows hop).2.2 m' h.2
    exact ⟨hm', _, rfl⟩

lemma turns_sound (h : Relation.ReflTransGen (Turn lib flags checker) m m')
    (hm : m.Sound) : m'.Sound := by
  induction h with
  | refl => exact hm
  | tail _ hturn ih => exact (hturn.sound ih).1

/-- The whole loop checks no more signatures than the scan counts. -/
lemma evalLoop_nSigChecks (lib : ScriptLib) (flags : Nat) (checker : SignatureChecker)
    (fuel : Nat) (hm : m.Sound) (hfollows : m.Follows lastOpcode) :
    (evalLoop lib flags checker fuel m).2.nSigChecks ≤
        m.nSigChecks + sigOpCountLoop true fuel lastOpcode m.pc ∧
      (evalLoop lib flags checker fuel m).2.nSigChecks ≤ MAX_OPS_PER_SCRIPT := by
  have hpaid := hm.paid
  have hlimit := hm.limit
  induction fuel generalizing m lastOpcode with
  | zero => exact ⟨by simp [evalLoop, pure_apply], by simp only [evalLoop, pure_apply]; omega⟩
  | succ fuel ih =>
    unfold evalLoop
    split_ifs with hempty
    · exact ⟨by simp only; omega, by simp only; omega⟩
    · rw [sigOpCountLoop_succ]
      cases hop : getOp.run m.pc with
      | none =>
        rw [bind_refused (evalOp_badOpcode hop)]
        exact ⟨by simp, by simp only; omega⟩
      | some op =>
        obtain ⟨⟨opcode, data⟩, pc⟩ := op
        obtain ⟨hcost, hmax, hnext⟩ := evalOp_turn lib flags checker hm hfollows hop
        refine bind_state (P := fun m' : Machine => m'.nSigChecks ≤ _ ∧ m'.nSigChecks ≤ _)
          ⟨by simp only at hcost ⊢; omega, hmax⟩ fun _ m₁ heval => ?_
        obtain ⟨hm₁, rfl, hfollows₁⟩ := hnext m₁ heval
        rw [heval] at hcost
        obtain ⟨hle, hle'⟩ := ih hm₁ hfollows₁ hm₁.paid hm₁.limit
        exact ⟨by simp only at hcost ⊢; omega, hle'⟩

lemma start_sound (hlen : stack.length ≤ 1000)
    (hstack : ∀ vch ∈ stack, vch.length ≤ MAX_SCRIPT_ELEMENT_SIZE) (script : CScript) :
    (Machine.start stack script).Sound :=
  ⟨by simp [Machine.start], by simp [Machine.start], by simpa [Machine.start] using hlen,
    ⟨hstack, by simp [Machine.start]⟩⟩

/-- `EvalScript` checks no more signatures than the scan counts. -/
lemma evalScript_nSigChecks (lib : ScriptLib) (flags : Nat) (checker : SignatureChecker)
    {script : CScript} (hstart : (Machine.start stack script).Sound) :
    (evalScript lib flags checker stack script).2.nSigChecks ≤
      min MAX_OPS_PER_SCRIPT (getSigOpCount true script) := by
  have hfollows : (Machine.start stack script).Follows OP_INVALIDOPCODE :=
    fun _ h₁₆ => absurd h₁₆ (by decide)
  obtain ⟨hcount, hmax⟩ := evalLoop_nSigChecks lib flags checker script.length hstart hfollows
  have hcatch (x : Eval Unit) (m : Machine) :
      (catchAll x m).2.nSigChecks = (x m).2.nSigChecks := by
    unfold catchAll
    rcases x m with ⟨_ | _ | _, m₁⟩ <;> rfl
  have hle := le_min hmax (by simpa [Machine.start, getSigOpCount] using hcount)
  unfold evalScript
  rw [check_bind_apply]
  split_ifs
  · refine bind_state (P := fun m : Machine => m.nSigChecks ≤ _) ?_ fun _ m hm => ?_
    · rw [hcatch]
      exact hle
    · rw [checkBalanced, check_nSigChecks]
      rw [catchAll_eq_returned.mp hm] at hle
      exact hle
  · simp [fail, refuse, Machine.start]

lemma evalLoop_turns (h : evalLoop lib flags checker fuel m = (.returned (), m')) :
    Relation.ReflTransGen (Turn lib flags checker) m m' := by
  induction fuel generalizing m with
  | zero =>
    obtain rfl : m = m' := (pure_eq_returned.mp h).2
    exact .refl
  | succ fuel ih =>
    unfold evalLoop at h
    split_ifs at h with hempty
    · obtain rfl : m = m' := (Prod.mk.inj h).2
      exact .refl
    · obtain ⟨u, m₁, hturn, hrest⟩ := bind_eq_returned.mp h
      exact .head ⟨by simpa using hempty, hturn⟩ (ih hrest)

variable {script : CScript}

lemma evalScript_returned (h : (evalScript lib flags checker stack script).1 = .returned ()) :
    evalScript lib flags checker stack script =
      (.returned (), (evalScript lib flags checker stack script).2) :=
  Prod.ext h rfl

lemma evalScript_eq_returned (h : evalScript lib flags checker stack script = (.returned (), m)) :
    evalLoop lib flags checker script.length (.start stack script) = (.returned (), m) := by
  obtain ⟨_, m₁, hsize, h⟩ := bind_eq_returned.mp h
  obtain ⟨-, rfl⟩ := ensure_eq_returned.mp hsize
  obtain ⟨_, m₂, hcatch, hbalanced⟩ := bind_eq_returned.mp h
  obtain ⟨-, rfl⟩ := ensure_eq_returned.mp hbalanced
  exact catchAll_eq_returned.mp hcatch

/-! ## The script that an input pushes -/

/-- The scan has the value that was pushed, or it has nothing and the value contains no signature
operation. -/
def Scanned (data top : Bytes) : Prop :=
  top = data ∨ data = [] ∧ getSigOpCount true top = 0

/-- The opcodes from `OP_1NEGATE` to `OP_16`. The small numbers contain no signature operation if
they are read as a script. -/
lemma opOf_pushes (hlt : OP_PUSHDATA4 < opcode) (hle : opcode ≤ OP_16) :
    opOf opcode = .badOpcode ∨
      ∃ n, opOf opcode = .number n ∧ getSigOpCount true (CScriptNum.getvch n) = 0 := by
  have hall : ∀ k < 0x61, 0x4e < k → opOf (UInt8.ofNat k) = .badOpcode ∨
      (opOf (UInt8.ofNat k) = .number ((k : Int) - 0x50) ∧
        getSigOpCount true (CScriptNum.getvch ((k : Int) - 0x50)) = 0) := by decide
  have hlt' : 0x4e < opcode.toNat := UInt8.lt_iff_toNat_lt.mp hlt
  have hle' : opcode.toNat < 0x61 := Nat.lt_succ_of_le (UInt8.le_iff_toNat_le.mp hle)
  have hop := hall opcode.toNat hle' hlt'
  rw [UInt8.ofNat_toNat] at hop
  exact hop.imp id fun h => ⟨_, h⟩

/-- An opcode that `IsPushOnly` lets pass pushes its operand or a small number, or it fails. -/
lemma execOpcode_pushes (hm : m.vfExec = []) (hpush : opcode ≤ OP_16)
    (hdata : OP_PUSHDATA4 < opcode → data = [])
    (hr : execOpcode lib flags checker opcode data m = (.returned (), m')) :
    ∃ top, m' = { m with stack := top :: m.stack } ∧ Scanned data top := by
  have hexec : m.fExec = true := by simp [Machine.fExec, hm]
  unfold execOpcode at hr
  simp only [hexec, Bool.true_and, Bool.true_or, if_true] at hr
  split_ifs at hr with hoperand
  · obtain ⟨_, m₁, hminimal, hr⟩ := bind_eq_returned.mp hr
    obtain ⟨-, rfl⟩ := ensure_eq_returned.mp hminimal
    exact ⟨data, (Prod.mk.inj hr).2.symm, .inl rfl⟩
  · have hlt : OP_PUSHDATA4 < opcode := by simpa using hoperand
    rcases opOf_pushes hlt hpush with hbad | ⟨n, hnumber, hzero⟩
    · simp [hbad, execOp, fail] at hr
    · rw [hnumber] at hr
      exact ⟨_, (Prod.mk.inj hr).2.symm, .inr ⟨hdata hlt, hzero⟩⟩

lemma evalOp_pushes (hm : m.vfExec = []) (hop : getOp.run m.pc = some ((opcode, data), pc))
    (hpush : opcode ≤ OP_16) (hr : evalOp lib flags checker m = (.returned (), m')) :
    m'.vfExec = [] ∧ m'.pc = pc ∧ ∃ top, m'.stack = top :: m.stack ∧ Scanned data top := by
  rcases evalOp_eq lib flags checker hop with ⟨hstopped, -⟩ | ⟨-, -, heq⟩
  · simp [hr] at hstopped
  · rw [heq] at hr
    obtain ⟨_, m₁, hexec, hsize⟩ := bind_eq_returned.mp hr
    obtain ⟨rfl, -⟩ := checkStackSize_returned hsize
    obtain ⟨operand, -, hdata⟩ := getOp_run hop
    obtain ⟨top, rfl, hscanned⟩ := execOpcode_pushes (m := m.advance opcode pc)
      hm hpush (fun hlt => (hdata hlt).2) hexec
    exact ⟨hm, rfl, top, rfl, hscanned⟩

/-- What a script of pushes leaves on top of the stack is what the scan takes for the script to be
counted. -/
lemma evalLoop_pushes (data : Bytes) (hm : m.vfExec = []) (hpush : isPushOnly fuel m.pc = true)
    (hr : evalLoop lib flags checker fuel m = (.returned (), m')) :
    ∃ data', lastPush fuel data m.pc = some data' ∧
      (m'.stack = m.stack ∧ data' = data ∨ ∃ top stack, m'.stack = top :: stack ∧
        Scanned data' top) := by
  induction fuel generalizing m data with
  | zero =>
    obtain rfl : m = m' := (pure_eq_returned.mp hr).2
    exact ⟨data, rfl, .inl ⟨rfl, rfl⟩⟩
  | succ fuel ih =>
    unfold evalLoop at hr
    unfold isPushOnly at hpush
    unfold lastPush
    split_ifs at hr hpush ⊢ with hempty
    · obtain rfl : m = m' := (Prod.mk.inj hr).2
      exact ⟨data, rfl, .inl ⟨rfl, rfl⟩⟩
    · obtain ⟨_, m₁, hturn, hrest⟩ := bind_eq_returned.mp hr
      rcases hop : getOp.run m.pc with _ | ⟨⟨opcode, data₁⟩, pc⟩
      · simp [hop] at hpush
      · simp only [hop, Bool.and_eq_true, decide_eq_true_eq] at hpush
        obtain ⟨hm₁, rfl, top, hstack, hscanned⟩ := evalOp_pushes hm hop hpush.1 hturn
        obtain ⟨data', hlast, hends⟩ := ih data₁ hm₁ hpush.2 hrest
        refine ⟨data', by simpa [UInt8.not_lt.mpr hpush.1] using hlast, .inr ?_⟩
        rcases hends with ⟨hsame, rfl⟩ | hends
        · exact ⟨top, m.stack, hsame.trans hstack, hscanned⟩
        · exact hends

/-- The script on top of the stack after a script of pushes has been counted by `GetSigOpCount`. -/
lemma evalScript_pushes {scriptSig scriptPubKey : CScript} {redeem : Bytes}
    (hp2sh : isPayToScriptHash scriptPubKey = true)
    (hpush : isPushOnly scriptSig.length scriptSig = true)
    (hr : evalScript lib flags checker [] scriptSig = (.returned (), m))
    (hstack : m.stack = redeem :: stack) :
    getSigOpCount true redeem ≤ getSigOpCountP2SH scriptPubKey scriptSig := by
  obtain ⟨data, hlast, hends⟩ := evalLoop_pushes (m := .start [] scriptSig) [] rfl hpush
    (evalScript_eq_returned hr)
  change lastPush scriptSig.length [] scriptSig = some data at hlast
  rcases hends with ⟨hempty, -⟩ | ⟨top, stack', htop, hscanned⟩
  · simp [hstack, Machine.start] at hempty
  · obtain ⟨rfl, -⟩ := cons.inj (hstack.symm.trans htop)
    simp only [getSigOpCountP2SH, hp2sh, if_true, hlast]
    rcases hscanned with rfl | ⟨-, hzero⟩
    · exact le_rfl
    · omega

/-- What a successful evaluation leaves keeps the limits. -/
lemma evalScript_sound (hr : evalScript lib flags checker [] script = (.returned (), m)) :
    m.Sound :=
  turns_sound (evalLoop_turns (evalScript_eq_returned hr)) (start_sound (by simp) (by simp) script)

end Operations

/-- `VerifyScript` comes to evaluate the redeem script of a pay-to-script-hash output on a stack. -/
structure EvaluatesRedeem (lib : ScriptLib) (flags : Nat) (checker : SignatureChecker)
    (scriptSig scriptPubKey redeem : CScript) (stack : List Bytes) : Prop where
  flagged : hasFlag flags SCRIPT_VERIFY_P2SH = true
  payToScriptHash : isPayToScriptHash scriptPubKey = true
  pushOnly : isPushOnly scriptSig.length scriptSig = true
  pushed : ∃ m, evalScript lib flags checker [] scriptSig = (.returned (), m) ∧
    m.stack = redeem :: stack
  hashed : ∃ m, evalScript lib flags checker (redeem :: stack) scriptPubKey = (.returned (), m) ∧
    topIsTrue m.stack = true

namespace EvaluatesRedeem

variable {lib : ScriptLib} {flags : Nat} {checker : SignatureChecker}
  {scriptSig scriptPubKey redeem : CScript} {stack : List Bytes}

lemma start_sound (h : EvaluatesRedeem lib flags checker scriptSig scriptPubKey redeem stack) :
    (Machine.start stack redeem).Sound := by
  obtain ⟨m, hpushed, hstack⟩ := h.pushed
  have hm := evalScript_sound hpushed
  have hsize := hm.size
  have helements := hm.elements.stack
  rw [hstack] at hsize helements
  exact Jumpcoin.start_sound (by simp only [length_cons] at hsize; omega)
    (fun vch hvch => helements vch (mem_cons_of_mem _ hvch)) _

/-- All that is left of `VerifyScript` then is the evaluation of the redeem script and what follows
it. -/
lemma verifyScript_eq (h : EvaluatesRedeem lib flags checker scriptSig scriptPubKey redeem stack)
    (s : ScriptError) :
    verifyScript lib flags checker scriptSig scriptPubKey s =
      (do
        let stack ← runScript lib flags checker stack redeem
        ensure (topIsTrue stack) fun _ => .evalFalse
        verifyCleanStack flags stack : Check ScriptError Unit) .ok := by
  obtain ⟨m, hpushed, hstack⟩ := h.pushed
  obtain ⟨m', hhashed, htrue⟩ := h.hashed
  have hfirst : runScript lib flags checker [] scriptSig s = (.returned (redeem :: stack), .ok) :=
    runScript_eq_returned.mpr ⟨m, hpushed, hstack, rfl⟩
  have hsecond : runScript lib flags checker (redeem :: stack) scriptPubKey .ok =
      (.returned m'.stack, .ok) := runScript_eq_returned.mpr ⟨m', hhashed, rfl, rfl⟩
  have hp2sh : verifyP2SH lib flags checker scriptSig scriptPubKey (redeem :: stack) m'.stack =
      verifyRedeemScript lib flags checker scriptSig (redeem :: stack) := by
    simp [verifyP2SH, h.flagged, h.payToScriptHash]
  unfold verifyScript
  rw [bind_returned (ensure_returned (by simp [h.pushOnly]) s), bind_returned hfirst,
    bind_returned hsecond, bind_returned (ensure_returned htrue _), hp2sh, verifyRedeemScript,
    bind_assoc, bind_returned (ensure_returned h.pushOnly _)]
  simp only [bind_assoc, pure_bind]

end EvaluatesRedeem

/-- The cost of a script is bounded and counted. After every operation that completes the two
stacks hold at most 1000 elements of at most 520 bytes. `EvalScript` checks no more signatures than
it may execute operations, and no more than the scan of the script counts. And no more are checked
for a redeem script than have been counted for the input. -/
theorem script_cost_bounded (lib : ScriptLib) (flags : Nat) (checker : SignatureChecker)
    (script : CScript) (stack : List Bytes) (hlen : stack.length ≤ 1000)
    (hstack : ∀ vch ∈ stack, vch.length ≤ 520) :
    (∀ m, Relation.ReflTransGen (Turn lib flags checker) (.start stack script) m →
      m.stack.length + m.altstack.length ≤ 1000 ∧ ∀ vch ∈ m.stack ++ m.altstack, vch.length ≤ 520) ∧
    (evalScript lib flags checker stack script).2.nSigChecks ≤
      min 201 (getSigOpCount true script) ∧
    ∀ scriptSig scriptPubKey redeem stack',
      EvaluatesRedeem lib flags checker scriptSig scriptPubKey redeem stack' →
        (evalScript lib flags checker stack' redeem).2.nSigChecks ≤
          getSigOpCountP2SH scriptPubKey scriptSig := by
  have hstart := start_sound hlen hstack script
  refine ⟨fun m hm => ?_, evalScript_nSigChecks lib flags checker hstart,
    fun scriptSig scriptPubKey redeem stack' hredeem => ?_⟩
  · have hm := turns_sound hm hstart
    refine ⟨hm.size, fun vch hvch => ?_⟩
    rcases mem_append.mp hvch with h | h
    · exact hm.elements.stack vch h
    · exact hm.elements.altstack vch h
  · obtain ⟨m, hpushed, htop⟩ := hredeem.pushed
    have hcounted := evalScript_pushes hredeem.payToScriptHash hredeem.pushOnly hpushed htop
    have hchecked := evalScript_nSigChecks lib flags checker hredeem.start_sound
    omega

def payToZeroHash : CScript := [0xa9, 0x14] ++ List.replicate 20 0 ++ [0x87]

/-- The input pushes `CHECKSIG` and its operands. -/
theorem pushedCheckSig_cost_bounded :
    (evalScript toyScriptLib SCRIPT_VERIFY_P2SH (toyChecker 7) [[1], []] [0xac]).2.nSigChecks = 1 ∧
      1 ≤ min 201 (getSigOpCount true [0xac]) ∧
      1 ≤ getSigOpCountP2SH payToZeroHash [0x00, 0x51, 0x01, 0xac] := by
  have hchecked : (evalScript toyScriptLib SCRIPT_VERIFY_P2SH (toyChecker 7) [[1], []]
      [0xac]).2.nSigChecks = 1 := by decide +kernel
  have hpushed : (evalScript toyScriptLib SCRIPT_VERIFY_P2SH (toyChecker 7) []
      [0x00, 0x51, 0x01, 0xac]).1 = .returned () := by decide +kernel
  have hhashed : (evalScript toyScriptLib SCRIPT_VERIFY_P2SH (toyChecker 7) [[0xac], [1], []]
      payToZeroHash).1 = .returned () := by decide +kernel
  have hevaluates : EvaluatesRedeem toyScriptLib SCRIPT_VERIFY_P2SH (toyChecker 7)
      [0x00, 0x51, 0x01, 0xac] payToZeroHash [0xac] [[1], []] :=
    ⟨by decide, by decide, by decide, ⟨_, evalScript_returned hpushed, by decide +kernel⟩,
      ⟨_, evalScript_returned hhashed, by decide +kernel⟩⟩
  obtain ⟨-, hcounted, hredeem⟩ := script_cost_bounded toyScriptLib SCRIPT_VERIFY_P2SH
    (toyChecker 7) [0xac] [[1], []] (by decide) (by decide)
  have hle := hredeem _ _ _ _ hevaluates
  exact ⟨hchecked, hcounted, hle⟩

end Jumpcoin
