import Jumpcoin.Foundation.Check

/-!
# Validation state

`CValidationState` of `consensus/validation.h`, which every consensus check carries by reference,
and the checks over it.
-/

namespace Jumpcoin

inductive ValidationMode where
  /-- everything ok -/
  | valid
  /-- network rule violation (DoS value may be set) -/
  | invalid
  /-- run-time error -/
  | error
  deriving DecidableEq, Repr

structure CValidationState where
  mode : ValidationMode
  nDoS : Int
  strRejectReason : String
  chRejectCode : Nat
  corruptionPossible : Bool
  strDebugMessage : String
  deriving DecidableEq, Repr

def REJECT_INVALID : Nat := 0x10
def REJECT_OBSOLETE : Nat := 0x11
def REJECT_NONSTANDARD : Nat := 0x40

namespace CValidationState

def init : CValidationState := ⟨.valid, 0, "", 0, false, ""⟩

section

variable (level : Int) (chRejectCodeIn : Nat) (strRejectReasonIn : String)

/-- `DoS`: record a rule violation, with every argument the source defaults written out. -/
def doSFull (corruptionIn : Bool)
    (strDebugMessageIn : String) (state : CValidationState) : CValidationState :=
  let state' := { state with
    chRejectCode := chRejectCodeIn
    strRejectReason := strRejectReasonIn
    corruptionPossible := corruptionIn
    strDebugMessage := strDebugMessageIn }
  if state.mode = .error then state'
  else { state' with nDoS := state.nDoS + level, mode := .invalid }

/-- A rule violation that the block or transaction itself is to blame for. -/
def doS : CValidationState → CValidationState :=
  doSFull level chRejectCodeIn strRejectReasonIn false ""

end

def markInvalid (chRejectCodeIn : Nat) (strRejectReasonIn strDebugMessageIn : String) :
    CValidationState → CValidationState :=
  doSFull 0 chRejectCodeIn strRejectReasonIn false strDebugMessageIn

def markError (strRejectReasonIn : String) (state : CValidationState) : CValidationState :=
  { state with
    mode := .error
    strRejectReason := if state.mode = .valid then strRejectReasonIn else state.strRejectReason }

def isValid (state : CValidationState) : Bool := state.mode == .valid

def isInvalid (state : CValidationState) : Bool := state.mode == .invalid

variable {state : CValidationState} {corruption : Bool} {reason debug : String} {level : Int}
  {code : Nat}

lemma isInvalid_doSFull (h : state.isValid = true) :
    (doSFull level code reason corruption debug state).isInvalid = true := by
  have hmode : state.mode = .valid := by simpa [isValid] using h
  simp [doSFull, isInvalid, hmode]

@[simp] lemma strRejectReason_doSFull :
    (doSFull level code reason corruption debug state).strRejectReason = reason := by
  unfold doSFull
  split_ifs <;> rfl

@[simp] lemma corruptionPossible_doSFull :
    (doSFull level code reason corruption debug state).corruptionPossible = corruption := by
  unfold doSFull
  split_ifs <;> rfl

end CValidationState

/-- A consensus check: it returns, refuses with the reason in the state, or halts. -/
abbrev Validate (α : Type) := Check CValidationState α

end Jumpcoin
