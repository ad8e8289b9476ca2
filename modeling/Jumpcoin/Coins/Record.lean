import Jumpcoin.Primitives.Transaction
import Mathlib.Data.List.DropRight

/-!
# Coin records

`CCoins` of `coins.h`: what the chainstate keeps of one transaction. A spent output is a null
output, and null outputs at the end of the list are dropped. `Clean` is that last invariant; every
operation that changes the outputs restores it by `cleanup`.
-/

namespace Jumpcoin

structure CCoins where
  fCoinBase : Bool
  fCoinStake : Bool
  vout : List CTxOut
  nHeight : Int32
  nVersion : Int32
  nTime : UInt32
  deriving DecidableEq, Repr

namespace CCoins

def empty : CCoins := ⟨false, false, [], 0, 0, 0⟩

def cleanup (coins : CCoins) : CCoins :=
  { coins with vout := coins.vout.rdropWhile CTxOut.isNull }

def clearUnspendable (coins : CCoins) : CCoins :=
  cleanup { coins with
    vout := coins.vout.map fun txout => if txout.isUnspendable then CTxOut.null else txout }

def fromTx (tx : CTransaction) (nHeightIn : Int32) : CCoins :=
  clearUnspendable
    { fCoinBase := tx.isCoinBase
      fCoinStake := tx.isCoinStake
      vout := tx.vout
      nHeight := nHeightIn
      nVersion := tx.nVersion
      nTime := tx.nTime }

def isAvailable (coins : CCoins) (nPos : Nat) : Bool :=
  match coins.vout[nPos]? with
  | some txout => !txout.isNull
  | none => false

def spend (coins : CCoins) (nPos : Nat) : Option CCoins :=
  if coins.isAvailable nPos then
    some (cleanup { coins with vout := coins.vout.set nPos CTxOut.null })
  else none

def isPruned (coins : CCoins) : Bool :=
  coins.vout.all CTxOut.isNull

/-- `operator==`: empty records are always equal. -/
def equals (a b : CCoins) : Bool :=
  (a.isPruned && b.isPruned) || decide (a = b)

/-! ## No null output at the end -/

/-- Spent outputs at the end of the list are dropped. -/
def Clean (coins : CCoins) : Prop :=
  ∀ txout, coins.vout.getLast? = some txout → txout.isNull = false

lemma cleanup_clean (coins : CCoins) : coins.cleanup.Clean := by
  intro txout h
  by_cases hne : coins.vout.rdropWhile CTxOut.isNull = []
  · simp [cleanup, hne] at h
  · have hlast := List.rdropWhile_last_not CTxOut.isNull coins.vout hne
    simp only [cleanup, List.getLast?_eq_some_getLast hne, Option.some.injEq] at h
    subst h
    simpa using hlast

lemma cleanup_eq_self {coins : CCoins} (h : coins.Clean) : coins.cleanup = coins := by
  have hv : coins.vout.rdropWhile CTxOut.isNull = coins.vout := by
    rw [List.rdropWhile_eq_self_iff]
    intro hne
    simp [h _ (List.getLast?_eq_some_getLast hne)]
  rw [cleanup, hv]

lemma fromTx_clean (tx : CTransaction) (nHeightIn : Int32) : (fromTx tx nHeightIn).Clean :=
  cleanup_clean _

lemma spend_clean {coins coins' : CCoins} {nPos : Nat} (h : coins.spend nPos = some coins') :
    coins'.Clean := by
  unfold spend at h
  split_ifs at h
  obtain rfl := Option.some.inj h
  exact cleanup_clean _

/-- A clean record is pruned only when it has no outputs at all. -/
lemma isPruned_iff {coins : CCoins} (h : coins.Clean) :
    coins.isPruned = true ↔ coins.vout = [] := by
  constructor
  · intro hp
    by_contra hne
    have hlast := h _ (List.getLast?_eq_some_getLast hne)
    have hall := List.all_eq_true.mp hp _ (List.getLast_mem hne)
    simp [hall] at hlast
  · intro hnil
    simp [isPruned, hnil]

lemma isPruned_cleanup (coins : CCoins) : coins.cleanup.isPruned = coins.isPruned := by
  rw [Bool.eq_iff_iff, isPruned_iff (cleanup_clean coins), isPruned, List.all_eq_true]
  exact List.rdropWhile_eq_nil_iff

end CCoins

end Jumpcoin
