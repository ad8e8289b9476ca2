import Jumpcoin.Consensus.Merkle

/-!
# Merkle branches

`MerkleComputation` with a position, which collects the branch of the leaf there. The computations
over the leaves and over the hashes of pairs of them go through the same steps, one level apart: so
the root is that of hashing level by level, and the branch starts with the neighbour of the leaf.
-/

namespace Jumpcoin

open List

variable (hashes : Hashes)

namespace Merkle

section

variable (matchlevel : Option Nat)

/-- What the branch gets when `inner[level]`, here `x`, is combined with `h`. -/
def sibling (level : Nat) (x h : Uint256) (matchh : Bool) : List Uint256 :=
  if matchh then [x] else if matchlevel = some level then [h] else []

/-- What it gets while a leaf is processed (`addLeaf`), and the new `matchlevel`. -/
def matchLeaf : Nat → List (Option Uint256) → Uint256 → Bool → List Uint256 × Option Nat
  | level, some x :: inner, h, matchh =>
    let above := matchLeaf (level + 1) inner (hashPair hashes x h)
      (matchh || matchlevel == some level)
    (sibling matchlevel level x h matchh ++ above.1, above.2)
  | level, _, _, matchh => ([], if matchh then some level else matchlevel)

/-- What it gets in the loop of the final sweep (`sweepUp`). -/
def matchUp : Nat → List (Option Uint256) → Uint256 → Bool → List Uint256
  | _, [], _, _ => []
  | level, some x :: inner, h, matchh =>
    sibling matchlevel level x h matchh ++
      matchUp (level + 1) inner (hashPair hashes x h) (matchh || matchlevel == some level)
  | level, none :: inner, h, matchh =>
    if inner.all Option.isNone then []
    else (if matchh then [h] else []) ++ matchUp (level + 1) inner (hashPair hashes h h) matchh

def matchSweep : Nat → List (Option Uint256) → List Uint256
  | _, [] => []
  | level, none :: inner => matchSweep (level + 1) inner
  | level, some h :: inner =>
    matchUp hashes matchlevel level (none :: inner) h (matchlevel == some level)

end

def branchFrom (branchpos : Nat) :
    Option Nat → List (Option Uint256) → Nat → List Uint256 → List Uint256
  | matchlevel, inner, _, [] => matchSweep hashes matchlevel 0 inner
  | matchlevel, inner, count, h :: leaves =>
    let found := matchLeaf hashes matchlevel 0 inner h (count == branchpos)
    found.1 ++ branchFrom branchpos found.2 (addLeaf hashes inner h).1 (count + 1) leaves

end Merkle

def computeMerkleBranch (leaves : List Uint256) (position : Nat) : List Uint256 :=
  Merkle.branchFrom hashes position none [] 0 leaves

def computeMerkleRootFromBranch : Uint256 → List Uint256 → Nat → Uint256
  | hash, [], _ => hash
  | hash, x :: vMerkleBranch, nIndex =>
    computeMerkleRootFromBranch
      (if nIndex % 2 = 1 then hashPair hashes x hash else hashPair hashes hash x) vMerkleBranch
      (nIndex / 2)

namespace Merkle

def nextLevel : List Uint256 → List Uint256
  | [] => []
  | [a] => [hashPair hashes a a]
  | a :: b :: l => hashPair hashes a b :: nextLevel l

lemma length_nextLevel (l : List Uint256) : (nextLevel hashes l).length = (l.length + 1) / 2 := by
  fun_induction nextLevel hashes l <;> grind

def rootByLevels (leaves : List Uint256) : Uint256 :=
  if 1 < leaves.length then rootByLevels (nextLevel hashes leaves) else leaves.headD 0
termination_by leaves.length
decreasing_by
  rw [length_nextLevel]
  omega

def neighbour : List Uint256 → Nat → Uint256
  | [], _ => 0
  | [a], _ => a
  | a :: b :: l, p => if p = 0 then b else if p = 1 then a else neighbour l (p - 2)

variable {hashes} {m n : Option Nat} {j k p c : Nat} {inner : List (Option Uint256)}
  {h leaf : Uint256} {matchh b b' : Bool} {l : List Uint256}

lemma getElem?_nextLevel (hleaf : l[p]? = some leaf) :
    (nextLevel hashes l)[p / 2]? = some (if p % 2 = 1 then hashPair hashes (neighbour l p) leaf
      else hashPair hashes leaf (neighbour l p)) := by
  fun_induction neighbour l p <;> grind [nextLevel]

/-! ## One level up -/

attribute [local grind =] Option.map_eq_some_iff
attribute [local grind] matchLeaf matchUp matchSweep sibling addLeaf sweep sweepUp branchFrom
  neighbour

lemma matchLeaf_shift (hm : matchh = false → n = m.map (· + 1)) :
    matchLeaf hashes n (k + 1) inner h matchh =
      (matchLeaf hashes m k inner h matchh).map id (Option.map (· + 1)) := by
  fun_induction matchLeaf hashes m k inner h matchh <;> grind

lemma matchUp_shift (hm : matchh = false → n = m.map (· + 1)) :
    matchUp hashes n (k + 1) inner h matchh = matchUp hashes m k inner h matchh := by
  fun_induction matchUp hashes m k inner h matchh <;> grind

lemma matchSweep_shift :
    matchSweep hashes (m.map (· + 1)) (k + 1) inner = matchSweep hashes m k inner := by
  fun_induction matchSweep hashes m k inner <;> grind [matchUp_shift]

lemma matchUp_true : matchUp hashes m k inner h true = matchUp hashes n k inner h true := by
  fun_induction sweepUp hashes inner h generalizing k <;> grind

lemma sweep_addLeaf : sweep hashes (addLeaf hashes inner h).1 = sweepUp hashes inner h := by
  fun_induction addLeaf hashes inner h <;> grind

lemma addLeaf_used : (addLeaf hashes inner h).1.all Option.isNone = false := by
  fun_induction addLeaf hashes inner h <;> grind

def Pointed (m : Option Nat) : Nat → List (Option Uint256) → Prop
  | _, [] => m = none
  | k, x :: inner => if m = some k then x ≠ none else Pointed m (k + 1) inner

lemma Pointed.ne (hm : Pointed m k inner) (hj : j < k) : m ≠ some j := by
  fun_induction Pointed m k inner <;> grind

lemma Pointed.matchLeaf (hm : matchh = false → Pointed m k inner) :
    Pointed (matchLeaf hashes m k inner h matchh).2 k (addLeaf hashes inner h).1 := by
  fun_induction addLeaf hashes inner h generalizing k matchh <;> grind [Pointed.ne, Pointed]

lemma matchSweep_addLeaf (hm : matchh = false → Pointed m k inner) :
    (matchLeaf hashes m k inner h matchh).1 ++
        matchSweep hashes (matchLeaf hashes m k inner h matchh).2 k (addLeaf hashes inner h).1 =
      matchUp hashes m k inner h matchh := by
  fun_induction addLeaf hashes inner h generalizing k matchh <;> grind [matchUp_true, Pointed]

lemma sweep_nextLevel (hl : inner.all Option.isNone = false ∨ 1 < l.length) :
    sweep hashes (addLeaves hashes (none :: inner) b l).1 =
      sweep hashes (addLeaves hashes inner b' (nextLevel hashes l)).1 := by
  fun_induction nextLevel hashes l generalizing inner b b' <;>
    grind [addLeaves, addLeaf, sweep, sweep_addLeaf, addLeaf_used]

lemma matchLeaf_none : matchLeaf hashes none k inner h false = ([], none) := by
  fun_induction addLeaf hashes inner h generalizing k <;> grind

lemma branchFrom_nextLevel (hm : Pointed m 0 inner) (hc : c ≤ p / 2 → m = none)
    (hl : inner.all Option.isNone = false ∨ 1 < l.length) (hp : p < 2 * c + l.length) :
    branchFrom hashes p (m.map (· + 1)) (none :: inner) (2 * c) l =
      (if c ≤ p / 2 then [neighbour l (p - 2 * c)] else []) ++
        branchFrom hashes (p / 2) m inner c (nextLevel hashes l) := by
  fun_induction nextLevel hashes l generalizing m inner c with
  | case1 => grind [matchSweep_shift]
  | case2 a =>
    obtain ⟨n, hn⟩ : ∃ n, n = if 2 * c = p then some 0 else m.map (· + 1) := ⟨_, rfl⟩
    have hflag : (n == some 0) = (c == p / 2) := by grind
    have hup : _ = matchUp hashes m 0 inner (hashPair hashes a a) (c == p / 2) :=
      matchSweep_addLeaf fun _ => hm
    rw [← matchUp_shift (n := n) (by grind)] at hup
    grind
  | case3 a b l ih =>
    obtain ⟨n, hn⟩ : ∃ n, n = if 2 * c = p then some 0 else m.map (· + 1) := ⟨_, rfl⟩
    have hflag : (2 * c + 1 == p || n == some 0) = (c == p / 2) := by
      rw [Bool.eq_iff_iff]
      grind
    have hshift : matchLeaf hashes n 1 inner (hashPair hashes a b) (c == p / 2) = _ :=
      matchLeaf_shift (m := m) (by grind)
    have hup : Pointed (matchLeaf hashes m 0 inner (hashPair hashes a b) (c == p / 2)).2 0 _ :=
      .matchLeaf fun _ => hm
    have hrest := ih (c := c + 1) hup (by grind [matchLeaf_none]) (.inl addLeaf_used) (by grind)
    grind [matchLeaf_none]

end Merkle

end Jumpcoin
