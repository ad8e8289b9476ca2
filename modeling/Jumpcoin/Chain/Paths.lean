import Jumpcoin.Chain.Index

/-!
# Paths from genesis

`GetAncestor` on a path that goes down to the genesis block, where the height of an entry is the
number of its ancestors; and the limit of past times of the first entry of a path.
-/

namespace Jumpcoin

open List

def getAncestorPath (path : List CBlockIndex) (height : Int) : List CBlockIndex :=
  match path with
  | [] => []
  | pindex :: _ =>
    if (pindex.nHeight : Int) < height ∨ height < 0 then []
    else path.dropWhile fun pindexWalk => decide ((pindexWalk.nHeight : Int) ≠ height)

def Numbered : List CBlockIndex → Prop
  | [] => True
  | pindex :: pprev => pindex.nHeight = pprev.length ∧ Numbered pprev

instance decidableNumbered : (path : List CBlockIndex) → Decidable (Numbered path)
  | [] => isTrue trivial
  | pindex :: pprev =>
    have := decidableNumbered pprev
    inferInstanceAs (Decidable (pindex.nHeight = pprev.length ∧ Numbered pprev))

namespace Numbered

variable {path : List CBlockIndex}

lemma drop (h : Numbered path) (k : Nat) : Numbered (path.drop k) := by
  induction path generalizing k with
  | nil => simpa using h
  | cons pindex pprev ih =>
    cases k with
    | zero => exact h
    | succ k => exact ih h.2 k

lemma dropWhile_eq_drop (h : Numbered path) {height : Nat} (hlt : height < path.length) :
    path.dropWhile (fun pindexWalk => decide ((pindexWalk.nHeight : Int) ≠ (height : Int))) =
      path.drop (path.length - 1 - height) := by
  induction path with
  | nil => simp at hlt
  | cons pindex pprev ih =>
    have hheight := h.1
    by_cases htop : height = pprev.length
    · rw [dropWhile_cons_of_neg (by simp [hheight, htop])]
      simp [htop]
    · have hrest : height < pprev.length := by
        rw [length_cons] at hlt
        omega
      have hdrop : (pindex :: pprev).length - 1 - height = pprev.length - 1 - height + 1 := by
        rw [length_cons]
        omega
      rw [dropWhile_cons_of_pos (by simp [hheight]; omega), hdrop, drop_succ_cons]
      exact ih h.2 hrest

lemma getAncestorPath_eq_drop (h : Numbered path) (k : Nat) :
    getAncestorPath path (path.length - 1 - k) = path.drop k := by
  cases path with
  | nil => simp [getAncestorPath]
  | cons pindex pprev =>
    have hheight := h.1
    by_cases hk : k ≤ pprev.length
    · have hcast : ((pindex :: pprev).length - 1 - k : Int) = (pprev.length - k : Nat) := by
        rw [length_cons]
        omega
      rw [getAncestorPath, hcast, if_neg (by omega), h.dropWhile_eq_drop (by simp)]
      congr 1
      omega
    · rw [getAncestorPath, if_pos (by rw [length_cons]; omega), drop_eq_nil_of_le]
      rw [length_cons]
      omega

end Numbered

lemma getAncestorPath_suffix (path : List CBlockIndex) (height : Int) :
    getAncestorPath path height <:+ path := by
  cases path with
  | nil => exact suffix_rfl
  | cons pindex pprev =>
    rw [getAncestorPath]
    split_ifs
    · exact nil_suffix
    · exact dropWhile_suffix _

/-! ## Past times -/

def blockTimes (path : List CBlockIndex) : List Int :=
  (path.take nMedianTimeSpan).map CBlockIndex.getBlockTime

lemma getMedianTimePast_eq (path : List CBlockIndex) : getMedianTimePast path =
    ((blockTimes path).insertionSort (· ≤ ·))[(blockTimes path).length / 2]? := by
  simp [getMedianTimePast, blockTimes]

lemma exists_getMedianTimePast (pindex : CBlockIndex) (pprev : List CBlockIndex) :
    ∃ nMedian, getMedianTimePast (pindex :: pprev) = some nMedian := by
  rw [getMedianTimePast_eq]
  refine ⟨_, getElem?_eq_getElem ?_⟩
  have hpos : 0 < (blockTimes (pindex :: pprev)).length := by
    simp [blockTimes, nMedianTimeSpan]
  rw [length_insertionSort]
  omega

lemma exists_getPastTimeLimit (params : Params) {path : List CBlockIndex} (h : path ≠ []) :
    ∃ nLimit, getPastTimeLimit params path = some nLimit := by
  cases path with
  | nil => exact absurd rfl h
  | cons pindex pprev =>
    rw [getPastTimeLimit]
    split_ifs
    · exact ⟨_, rfl⟩
    · exact exists_getMedianTimePast _ _

lemma getPastTimeLimit_nonneg {params : Params} {path : List CBlockIndex} {nLimit : Int}
    (h : getPastTimeLimit params path = some nLimit) : 0 ≤ nLimit := by
  have htime (pindex : CBlockIndex) : 0 ≤ pindex.getBlockTime := Int.natCast_nonneg _
  cases path with
  | nil => cases h
  | cons pindex pprev =>
    rw [getPastTimeLimit] at h
    split_ifs at h
    · exact Option.some.inj h ▸ htime pindex
    · obtain ⟨pindex', -, rfl⟩ := mem_map.mp ((perm_insertionSort _ _).subset (mem_of_getElem? h))
      exact htime pindex'

end Jumpcoin
