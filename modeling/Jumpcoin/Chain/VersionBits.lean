import Jumpcoin.Chain.Paths
import Jumpcoin.Foundation.Memo

/-!
# Deployment states

`AbstractThresholdConditionChecker::GetStateFor` of `versionbits.cpp`: the state of a soft fork
deployment for the block after a given one. The state changes at the ends of periods only; it is
computed with a cache that all branches of the block tree share.

A block is given by its path as in the block index, the null pointer by the empty path. The walk
back stops at a block before the start time, where the state is taken to be `DEFINED`. The
recursion without a cache looks at the timeout first.
-/

namespace Jumpcoin

open List Nat

inductive ThresholdState
  | DEFINED
  | STARTED
  | LOCKED_IN
  | ACTIVE
  | FAILED
  deriving DecidableEq, Repr

/-- What a subclass of `AbstractThresholdConditionChecker` gives for the parameters of a network. -/
structure ThresholdConditionChecker where
  condition : List CBlockIndex → Bool
  nTimeStart : Int
  nTimeTimeout : Int
  nPeriod : Nat
  nThreshold : Int
  nPeriod_pos : 0 < nPeriod

namespace ThresholdConditionChecker

variable (params : Params) (checker : ThresholdConditionChecker)

def pastTimeLimit (path : List CBlockIndex) : Int := (getPastTimeLimit params path).getD 0

def count (pindexCount : List CBlockIndex) : Nat → Nat
  | 0 => 0
  | i + 1 => (if checker.condition pindexCount then 1 else 0) + count pindexCount.tail i

def nextState (pindexPrev : List CBlockIndex) : ThresholdState → ThresholdState
  | .DEFINED =>
    if checker.nTimeTimeout ≤ pastTimeLimit params pindexPrev then .FAILED
    else if checker.nTimeStart ≤ pastTimeLimit params pindexPrev then .STARTED
    else .DEFINED
  | .STARTED =>
    if checker.nTimeTimeout ≤ pastTimeLimit params pindexPrev then .FAILED
    else if checker.nThreshold ≤ checker.count pindexPrev checker.nPeriod then .LOCKED_IN
    else .STARTED
  | .LOCKED_IN => .ACTIVE
  | .FAILED => .FAILED
  | .ACTIVE => .ACTIVE

/-- Where the walk back ends without a look at the cache. -/
def known : List CBlockIndex → Option ThresholdState
  -- The genesis block is by definition defined.
  | [] => some .DEFINED
  | pindexPrev :: pprev =>
    -- Optimizaton: every earlier block will be before the start time
    if pastTimeLimit params (pindexPrev :: pprev) < checker.nTimeStart then some .DEFINED else none

def previous : List CBlockIndex → List CBlockIndex
  | [] => []
  | pindexPrev :: pprev =>
    getAncestorPath (pindexPrev :: pprev) (pindexPrev.nHeight - checker.nPeriod)

def periodEnd : List CBlockIndex → List CBlockIndex
  | [] => []
  | pindexPrev :: pprev =>
    getAncestorPath (pindexPrev :: pprev)
      (pindexPrev.nHeight - (pindexPrev.nHeight + 1) % checker.nPeriod)

lemma length_previous_lt (pindexPrev : CBlockIndex) (pprev : List CBlockIndex) :
    (checker.previous (pindexPrev :: pprev)).length < (pindexPrev :: pprev).length := by
  have hpos := checker.nPeriod_pos
  have hne : (pindexPrev.nHeight : Int) ≠ pindexPrev.nHeight - checker.nPeriod := by omega
  simp only [previous, getAncestorPath]
  split_ifs
  · simp
  · rw [dropWhile_cons_of_pos (by simpa using hne)]
    exact lt_succ_of_le (dropWhile_sublist _).length_le

def recurrence : Recurrence (List CBlockIndex) ThresholdState where
  prev := checker.previous
  known := checker.known params
  step := checker.nextState params
  rank := List.length
  rank_prev path h :=
    match path with
    | [] => by cases h
    | _ :: _ => checker.length_previous_lt _ _

abbrev Cache := List CBlockIndex → Option ThresholdState

def getStateFor (cache : Cache) (pindexPrev : List CBlockIndex) : ThresholdState × Cache :=
  (checker.recurrence params).evaluate cache (checker.periodEnd pindexPrev)

def cacheAfter (calls : List (List CBlockIndex)) : Cache :=
  calls.foldl (fun cache pindexPrev => (checker.getStateFor params cache pindexPrev).2)
    fun _ => none

/-! ## The states period by period -/

def stateAfter (path : List CBlockIndex) : Nat → ThresholdState
  | 0 => .DEFINED
  | k + 1 =>
    checker.nextState params (path.drop (path.length - (k + 1) * checker.nPeriod))
      (stateAfter path k)

/-- The state without a cache: evaluated at the end of each period from genesis on. -/
def uncached (path : List CBlockIndex) : ThresholdState :=
  checker.stateAfter params path (path.length / checker.nPeriod)

end ThresholdConditionChecker

/-- A block tree along whose branches the limit of past times does not decrease. -/
structure TimedTree (params : Params) where
  blocks : Set (List CBlockIndex)
  pprev_mem : ∀ pindex pprev, pindex :: pprev ∈ blocks → pprev ∈ blocks
  nHeight_eq : ∀ pindex pprev, pindex :: pprev ∈ blocks → pindex.nHeight = pprev.length
  limit_le : ∀ pindex pprev, pindex :: pprev ∈ blocks → pprev ≠ [] →
    ThresholdConditionChecker.pastTimeLimit params pprev ≤
      ThresholdConditionChecker.pastTimeLimit params (pindex :: pprev)

namespace TimedTree

variable {params : Params} {tree : TimedTree params} {path : List CBlockIndex}

lemma mem_drop (h : path ∈ tree.blocks) (k : Nat) : path.drop k ∈ tree.blocks := by
  induction path generalizing k with
  | nil => simpa using h
  | cons pindex pprev ih =>
    cases k with
    | zero => exact h
    | succ k => exact ih (tree.pprev_mem _ _ h) k

lemma numbered (h : path ∈ tree.blocks) : Numbered path := by
  induction path with
  | nil => trivial
  | cons pindex pprev ih => exact ⟨tree.nHeight_eq _ _ h, ih (tree.pprev_mem _ _ h)⟩

lemma limit_drop_le (h : path ∈ tree.blocks) {k : Nat} (hk : k < path.length) :
    ThresholdConditionChecker.pastTimeLimit params (path.drop k) ≤
      ThresholdConditionChecker.pastTimeLimit params path := by
  induction path generalizing k with
  | nil => simp at hk
  | cons pindex pprev ih =>
    cases k with
    | zero => exact le_rfl
    | succ k =>
      have hlt : k < pprev.length := by simpa using hk
      have hne : pprev ≠ [] := by
        rintro rfl
        simp at hlt
      exact (ih (tree.pprev_mem _ _ h) hlt).trans (tree.limit_le _ _ h hne)

end TimedTree

namespace ThresholdConditionChecker

variable {params : Params} {checker : ThresholdConditionChecker} {tree : TimedTree params}
variable {path : List CBlockIndex} {k m : Nat}

lemma previous_eq_drop (h : path ∈ tree.blocks) :
    checker.previous path = path.drop checker.nPeriod := by
  cases path with
  | nil => simp [previous]
  | cons pindex pprev =>
    rw [← (TimedTree.numbered h).getAncestorPath_eq_drop, previous, tree.nHeight_eq _ _ h]
    simp

lemma periodEnd_eq_drop (h : path ∈ tree.blocks) :
    checker.periodEnd path = path.drop (path.length % checker.nPeriod) := by
  cases path with
  | nil => simp [periodEnd]
  | cons pindex pprev =>
    rw [← (TimedTree.numbered h).getAncestorPath_eq_drop, periodEnd, tree.nHeight_eq _ _ h]
    simp

/-- The state after some periods depends on their blocks only. -/
lemma stateAfter_drop (h : m + k * checker.nPeriod ≤ path.length) :
    checker.stateAfter params (path.drop m) k = checker.stateAfter params path k := by
  induction k with
  | zero => rfl
  | succ k ih =>
    have hmul := Nat.add_one_mul k checker.nPeriod
    rw [stateAfter, stateAfter, ih (by omega), drop_drop, length_drop]
    congr 2
    omega

/-- No period ends between the timeout and a later start time. -/
def Ordered (checker : ThresholdConditionChecker) (tree : TimedTree params) : Prop :=
  ∀ path ∈ tree.blocks, path ≠ [] → path.length % checker.nPeriod = 0 →
    ¬(checker.nTimeTimeout ≤ pastTimeLimit params path ∧
      pastTimeLimit params path < checker.nTimeStart)

lemma length_drop_period (hlength : path.length = (k + 1) * checker.nPeriod) :
    (path.drop checker.nPeriod).length = k * checker.nPeriod := by
  rw [length_drop, hlength, Nat.succ_mul, Nat.add_sub_cancel]

lemma stateAfter_succ (hlength : path.length = (k + 1) * checker.nPeriod) :
    checker.stateAfter params path (k + 1) =
      checker.nextState params path (checker.stateAfter params (path.drop checker.nPeriod) k) := by
  have hmul := Nat.add_one_mul k checker.nPeriod
  rw [stateAfter, stateAfter_drop (by omega), ← hlength, Nat.sub_self, drop_zero]

section

variable (h : Ordered checker tree) (hmem : path ∈ tree.blocks)
  (hlength : path.length = k * checker.nPeriod)
include h hmem hlength

/-- Before the start time nothing has happened. -/
lemma Ordered.stateAfter_eq_defined
    (hbefore : path ≠ [] → pastTimeLimit params path < checker.nTimeStart) :
    checker.stateAfter params path k = .DEFINED := by
  induction k generalizing path with
  | zero => rfl
  | succ k ih =>
    have hpos := checker.nPeriod_pos
    have hne : path ≠ [] := by
      rintro rfl
      simp at hlength
      omega
    have hlimit := hbefore hne
    have hprev : checker.stateAfter params (path.drop checker.nPeriod) k = .DEFINED := by
      apply ih (TimedTree.mem_drop hmem _) (length_drop_period hlength)
      intro hdrop
      have hlt : checker.nPeriod < path.length := by
        by_contra hge
        exact hdrop (drop_eq_nil_of_le (by omega))
      exact (TimedTree.limit_drop_le hmem hlt).trans_lt hlimit
    have hordered := h path hmem hne (by rw [hlength, mul_mod_left])
    rw [stateAfter_succ hlength, hprev, nextState, if_neg (by omega), if_neg (by omega)]

/-- The recursion with the early stop gives the states period by period. -/
lemma Ordered.value_eq_stateAfter :
    (checker.recurrence params).value path = checker.stateAfter params path k := by
  induction k generalizing path with
  | zero =>
    have hnil : path = [] := eq_nil_of_length_eq_zero (by simpa using hlength)
    subst hnil
    exact Recurrence.value_of_known rfl
  | succ k ih =>
    cases hknown : checker.known params path with
    | some state =>
      have hdefined : state = .DEFINED ∧
          (path ≠ [] → pastTimeLimit params path < checker.nTimeStart) := by
        cases path with
        | nil =>
          cases hknown
          exact ⟨rfl, fun hne => absurd rfl hne⟩
        | cons pindex pprev =>
          simp only [known, Option.ite_none_right_eq_some, Option.some.injEq] at hknown
          exact ⟨hknown.2.symm, fun _ => hknown.1⟩
      rw [Recurrence.value_of_known hknown, hdefined.1,
        h.stateAfter_eq_defined hmem hlength hdefined.2]
    | none =>
      rw [Recurrence.value_of_unknown hknown, stateAfter_succ hlength,
        ← ih (TimedTree.mem_drop hmem _) (length_drop_period hlength), ← previous_eq_drop hmem]
      rfl

end

/-! ## Any history of calls -/

lemma sound_cacheAfter (calls : List (List CBlockIndex)) :
    (checker.recurrence params).Sound (checker.cacheAfter params calls) := by
  have hfold (cache : Cache) (h : (checker.recurrence params).Sound cache) :
      (checker.recurrence params).Sound (calls.foldl
        (fun cache pindexPrev => (checker.getStateFor params cache pindexPrev).2) cache) := by
    induction calls generalizing cache with
    | nil => exact h
    | cons path calls ih => exact ih _ (h.evaluate _).2
  exact hfold _ .empty

/-- Earlier calls do not change the result. -/
lemma getStateFor_eq_value (calls : List (List CBlockIndex)) (path : List CBlockIndex) :
    (checker.getStateFor params (checker.cacheAfter params calls) path).1 =
      (checker.recurrence params).value (checker.periodEnd path) :=
  ((sound_cacheAfter calls).evaluate _).1

lemma Ordered.getStateFor_eq_uncached (h : Ordered checker tree) (hmem : path ∈ tree.blocks)
    (calls : List (List CBlockIndex)) :
    (checker.getStateFor params (checker.cacheAfter params calls) path).1 =
      checker.uncached params path := by
  have hdiv := div_add_mod' path.length checker.nPeriod
  rw [getStateFor_eq_value, periodEnd_eq_drop hmem,
    h.value_eq_stateAfter (TimedTree.mem_drop hmem _) (k := path.length / checker.nPeriod)
      (by rw [length_drop]; omega), stateAfter_drop (by omega), uncached]

lemma uncached_eq_stateAfter_append (later earlier : List CBlockIndex) :
    checker.uncached params earlier =
      checker.stateAfter params (later ++ earlier) (earlier.length / checker.nPeriod) := by
  have hle := div_mul_le_self earlier.length checker.nPeriod
  have hlength : later.length + earlier.length / checker.nPeriod * checker.nPeriod ≤
      (later ++ earlier).length := by
    rw [length_append]
    omega
  rw [← stateAfter_drop hlength, drop_left, uncached]

lemma stateAfter_terminal (hkm : k ≤ m)
    (h : checker.stateAfter params path k = .ACTIVE ∨ checker.stateAfter params path k = .FAILED) :
    checker.stateAfter params path m = checker.stateAfter params path k := by
  induction hkm with
  | refl => rfl
  | step _ ih =>
    rw [stateAfter, ih]
    obtain hactive | hfailed := h
    · rw [hactive, nextState]
    · rw [hfailed, nextState]

/-- How the states of the blocks of a tree develop. -/
structure Develops (params : Params) (checker : ThresholdConditionChecker)
    (blocks : Set (List CBlockIndex)) (state : List CBlockIndex → ThresholdState) : Prop where
  uncached : ∀ path ∈ blocks, state path = checker.uncached params path
  constant : ∀ later earlier, later ++ earlier ∈ blocks →
    (later.length + earlier.length) / checker.nPeriod = earlier.length / checker.nPeriod →
    state (later ++ earlier) = state earlier
  terminal : ∀ later earlier, later ++ earlier ∈ blocks →
    state earlier = .ACTIVE ∨ state earlier = .FAILED → state (later ++ earlier) = state earlier

/-- Whatever blocks were asked for before, the states are those of the recursion without a cache,
exactly if no period of the tree ends between the timeout and a later start time. -/
theorem develops_iff (params : Params) (checker : ThresholdConditionChecker)
    (tree : TimedTree params) :
    (∀ calls : List (List CBlockIndex), (∀ path ∈ calls, path ∈ tree.blocks) →
      Develops params checker tree.blocks fun path =>
        (checker.getStateFor params (checker.cacheAfter params calls) path).1) ↔
    Ordered checker tree := by
  constructor
  · intro h path hmem hne hend ⟨htimeout, hstart⟩
    have hcached := (h [] (by simp)).uncached path hmem
    have hperiod : checker.periodEnd path = path := by
      rw [periodEnd_eq_drop hmem, hend, drop_zero]
    have hknown : checker.known params path = some .DEFINED := by
      cases path with
      | nil => rfl
      | cons pindex pprev => rw [known, if_pos hstart]
    rw [getStateFor_eq_value, hperiod, Recurrence.value_of_known hknown] at hcached
    obtain ⟨k, hk⟩ : ∃ k, path.length / checker.nPeriod = k + 1 := by
      apply exists_eq_add_one.mpr
      have hdiv := div_add_mod' path.length checker.nPeriod
      have hpos := length_pos_of_ne_nil hne
      apply pos_of_ne_zero
      intro hzero
      rw [hzero] at hdiv
      omega
    have hlength : path.length = (k + 1) * checker.nPeriod := by
      rw [← hk]
      exact (Nat.div_mul_cancel (Nat.dvd_of_mod_eq_zero hend)).symm
    rw [uncached, hk, stateAfter_succ hlength] at hcached
    -- at the timeout every state is left for one other than `DEFINED`
    cases hstate : checker.stateAfter params (path.drop checker.nPeriod) k <;>
      simp [hstate, nextState, htimeout] at hcached
  · intro h calls _
    have hstate (path : List CBlockIndex) (hmem : path ∈ tree.blocks) :=
      h.getStateFor_eq_uncached hmem calls
    have hearlier (later earlier : List CBlockIndex) (hmem : later ++ earlier ∈ tree.blocks) :
        earlier ∈ tree.blocks := by
      have hdrop := TimedTree.mem_drop hmem later.length
      rwa [drop_left] at hdrop
    refine ⟨hstate, ?_, ?_⟩
    · intro later earlier hmem hperiod
      simp only [hstate _ hmem, hstate _ (hearlier _ _ hmem)]
      rw [uncached, length_append, hperiod, ← uncached_eq_stateAfter_append]
    · intro later earlier hmem hterminal
      simp only [hstate _ hmem, hstate _ (hearlier _ _ hmem)] at hterminal ⊢
      rw [uncached_eq_stateAfter_append later earlier] at hterminal ⊢
      apply stateAfter_terminal _ hterminal
      apply Nat.div_le_div_right
      rw [length_append]
      omega

def lapsed : ThresholdConditionChecker where
  condition _ := false
  nTimeStart := 1696771813
  nTimeTimeout := 1696771811
  nPeriod := 1
  nThreshold := 1
  nPeriod_pos := by decide

def firstIndex : CBlockIndex :=
  .ofHeader 0 ⟨1, 0, 0, 1696771811, 0, 0⟩

/-- Before the start time it has not failed after its timeout. -/
theorem getStateFor_lapsed :
    (lapsed.getStateFor mainParams.consensus (fun _ => none) [firstIndex]).1 = .DEFINED ∧
      lapsed.uncached mainParams.consensus [firstIndex] = .FAILED := by
  refine ⟨?_, by decide +kernel⟩
  have hknown : lapsed.known mainParams.consensus [firstIndex] = some .DEFINED := by
    decide +kernel
  exact (Recurrence.Sound.empty.evaluate _).1.trans (Recurrence.value_of_known hknown)

end ThresholdConditionChecker

end Jumpcoin
