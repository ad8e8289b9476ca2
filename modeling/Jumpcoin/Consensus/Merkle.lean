import Jumpcoin.Foundation.MerkleTree
import Jumpcoin.Primitives.Block
import Mathlib.Data.Nat.Log

/-!
# The merkle root of a block

`MerkleComputation` of `consensus/merkle.cpp`: one pass over the leaves that keeps the roots of the
complete subtrees so far, then a sweep that completes the rightmost branch. The pass reports
whether two equal complete subtrees were combined.

The source keeps a leaf count and an array `inner` in which exactly the levels of the bits set in
the count are defined. Here both are one list: entry `level` is `inner[level]` if the bit is set
and `none` if it is clear.

The result is the root of the hash tree at the least height that holds the leaves, and a run that
reports no mutation shows the tree to be `Distinct`; so the root commits a block to its
transactions (`vtx_eq_of_merkleRoot_eq`).
-/

namespace Jumpcoin

open Codec HashTree List

def hashPair (hashes : Hashes) (a b : Uint256) : Uint256 :=
  hashes.hash256 (writeUInt256 a ++ writeUInt256 b)

namespace Merkle

variable (hashes : Hashes)

/-- Process one leaf: for each of the low bits set in the count, one combination with the subtree
that ends there. The flag tells whether two combined subtrees were equal. -/
def addLeaf : List (Option Uint256) → Uint256 → List (Option Uint256) × Bool
  | [], h => ([some h], false)
  | none :: inner, h => (some h :: inner, false)
  | some x :: inner, h =>
    let (inner', mutated) := addLeaf inner (hashPair hashes x h)
    (none :: inner', x == h || mutated)

def addLeaves : List (Option Uint256) → Bool → List Uint256 → List (Option Uint256) × Bool
  | inner, mutated, [] => (inner, mutated)
  | inner, mutated, h :: leaves =>
    let (inner', m) := addLeaf hashes inner h
    addLeaves inner' (mutated || m) leaves

/-- The loop of the final sweep, entered with a hash that was just combined and the levels above. -/
def sweepUp : List (Option Uint256) → Uint256 → Uint256
  | [], h => h
  | some x :: inner, h => sweepUp inner (hashPair hashes x h)
  | none :: inner, h =>
    if inner.all Option.isNone then h else sweepUp inner (hashPair hashes h h)

/-- The final sweep: start at the lowest level in use, and combine with itself a hash that is not
the top. -/
def sweep : List (Option Uint256) → Uint256
  | [] => 0
  | none :: inner => sweep inner
  | some h :: inner =>
    if inner.all Option.isNone then h else sweepUp hashes inner (hashPair hashes h h)

end Merkle

def computeMerkleRoot (hashes : Hashes) (leaves : List Uint256) : Uint256 × Bool :=
  let (inner, mutated) := Merkle.addLeaves hashes [] false leaves
  (Merkle.sweep hashes inner, mutated)

def blockMerkleRoot (hashes : Hashes) (block : CBlock) : Uint256 × Bool :=
  computeMerkleRoot hashes (block.vtx.map (CTransaction.getHash hashes))

namespace Merkle

variable {hashes : Hashes}

/-! ## The subtrees kept -/

/-- The list of subtrees `inner`, starting at level `k`, covers the leaves `l`: each entry is the
root of a complete subtree with the property `P`, and higher levels hold earlier leaves. -/
inductive Covers (hashes : Hashes) (P : Nat → List Uint256 → Prop) :
    Nat → List (Option Uint256) → List Uint256 → Prop
  | nil {k : Nat} : Covers hashes P k [] []
  | none {k : Nat} {inner : List (Option Uint256)} {l : List Uint256} :
      Covers hashes P (k + 1) inner l → Covers hashes P k (none :: inner) l
  | some {k : Nat} {inner : List (Option Uint256)} {l l' : List Uint256} :
      Covers hashes P (k + 1) inner l → l'.length = 2 ^ k → P k l' →
      Covers hashes P k (some (root (hashPair hashes) k l') :: inner) (l ++ l')

/-- A property of subtrees that the computation passes on: a complete subtree is joined to one that
need not be complete, or a subtree is joined to itself. A `strict` computation is one whose flag is
looked at, so that no two equal complete subtrees were joined. -/
structure PassedOn (hashes : Hashes) (strict : Prop) (P : Nat → List Uint256 → Prop) : Prop where
  leaf : ∀ a, P 0 [a]
  copy : ∀ {k l}, l.length ≤ 2 ^ k → P k l → P (k + 1) l
  join : ∀ {k l₁ l₂}, l₁.length = 2 ^ k → 0 < l₂.length → P k l₁ → P k l₂ →
    (strict → l₂.length = 2 ^ k → root (hashPair hashes) k l₁ ≠ root (hashPair hashes) k l₂) →
    P (k + 1) (l₁ ++ l₂)

lemma passedOn_distinct : PassedOn hashes True (Distinct (hashPair hashes)) where
  leaf _ := trivial
  copy h hd := by rwa [distinct_of_length_le h]
  join h₁ h₂ hd₁ hd₂ hne := by
    rw [distinct_append h₁ h₂]
    exact ⟨hd₁, hd₂, hne trivial⟩

lemma passedOn_true : PassedOn hashes False fun _ _ => True where
  leaf _ := trivial
  copy _ _ := trivial
  join _ _ _ _ _ := trivial

variable {strict : Prop} {P : Nat → List Uint256 → Prop} {k : Nat}
variable {inner : List (Option Uint256)} {l l' : List Uint256} {leaves : List Uint256}
  {mutated : Bool}

lemma Covers.addLeaf (hP : PassedOn hashes strict P) (hc : Covers hashes P k inner l)
    (hlen : l'.length = 2 ^ k) (hl' : P k l')
    (hm : strict → (Merkle.addLeaf hashes inner (root (hashPair hashes) k l')).2 = false) :
    Covers hashes P k (Merkle.addLeaf hashes inner (root (hashPair hashes) k l')).1 (l ++ l') := by
  induction hc generalizing l' with
  | nil => exact .some .nil hlen hl'
  | none hc _ => exact .some hc hlen hl'
  | @some k inner l l₂ hc hlen₂ hl₂ ih =>
    have hpos : 0 < l'.length := by rw [hlen]; positivity
    rw [Merkle.addLeaf, ← root_append (hashPair hashes) hlen₂ hpos] at hm ⊢
    have hne (hs : strict) : root (hashPair hashes) k l₂ ≠ root (hashPair hashes) k l' ∧
        (Merkle.addLeaf hashes inner (root (hashPair hashes) (k + 1) (l₂ ++ l'))).2 = false := by
      simpa using hm hs
    rw [append_assoc]
    refine .none (ih ?_ (hP.join hlen₂ hpos hl₂ hl' fun hs _ => (hne hs).1) fun hs => (hne hs).2)
    rw [length_append, hlen₂, hlen, pow_succ]
    ring

lemma addLeaves_mutated (h : (addLeaves hashes inner mutated leaves).2 = false) :
    mutated = false := by
  induction leaves generalizing inner mutated with
  | nil => exact h
  | cons a leaves ih =>
    have hm : mutated = false ∧ (addLeaf hashes inner a).2 = false := by simpa using ih h
    exact hm.1

/-- The pass over the leaves keeps them covered. -/
lemma Covers.addLeaves (hP : PassedOn hashes strict P) (hc : Covers hashes P 0 inner l)
    (hm : strict → (Merkle.addLeaves hashes inner mutated leaves).2 = false) :
    Covers hashes P 0 (Merkle.addLeaves hashes inner mutated leaves).1 (l ++ leaves) := by
  induction leaves generalizing inner l mutated with
  | nil => simpa [Merkle.addLeaves] using hc
  | cons a leaves ih =>
    have hm' (hs : strict) : (Merkle.addLeaves hashes (Merkle.addLeaf hashes inner a).1
        (mutated || (Merkle.addLeaf hashes inner a).2) leaves).2 = false := hm hs
    have hflag (hs : strict) : mutated = false ∧ (Merkle.addLeaf hashes inner a).2 = false := by
      simpa using addLeaves_mutated (hm' hs)
    have hstep : Covers hashes P 0 (Merkle.addLeaf hashes inner a).1 (l ++ [a]) := by
      exact Covers.addLeaf hP hc rfl (hP.leaf a) fun hs => (hflag hs).2
    have hrest := ih hstep hm'
    rwa [append_assoc] at hrest

/-! ## The sweep -/

/-- Nothing is covered exactly when no level is in use. -/
lemma Covers.all_isNone_iff (hc : Covers hashes P k inner l) :
    inner.all Option.isNone = true ↔ l = [] := by
  induction hc with
  | nil => simp
  | none _ ih => simpa using ih
  | @some k inner l l' _ hlen _ _ =>
    have hpos : 0 < l'.length := by rw [hlen]; positivity
    have hne : l' ≠ [] := length_pos_iff.mp hpos
    simp [hne]

lemma sweepUp_of_all_isNone {h : Uint256} (hall : inner.all Option.isNone = true) :
    sweepUp hashes inner h = h := by
  cases inner with
  | nil => rfl
  | cons x inner =>
    obtain ⟨hx, hrest⟩ : x = none ∧ inner.all Option.isNone = true := by simpa using hall
    subst hx
    rw [sweepUp, if_pos hrest]

/-- The root at the least height that holds the leaves, of a tree without equal siblings. -/
structure IsRoot (hashes : Hashes) (l : List Uint256) (h : Uint256) : Prop where
  eq : h = root (hashPair hashes) (Nat.clog 2 l.length) l
  distinct : Distinct (hashPair hashes) (Nat.clog 2 l.length) l

lemma clog_length_append (h₁ : l.length = 2 ^ k) (hpos : 0 < l'.length)
    (hle : l'.length ≤ 2 ^ k) : Nat.clog 2 (l ++ l').length = k + 1 := by
  rw [length_append, h₁]
  apply le_antisymm
  · apply Nat.clog_le_of_le_pow
    omega
  · rw [Nat.succ_le_iff, Nat.lt_clog_iff_pow_lt (by norm_num)]
    omega

/-- The sweep from level `k` with an incomplete subtree over the last leaves. -/
lemma Covers.sweepUp (hP : PassedOn hashes strict P) (hc : Covers hashes P k inner l)
    (hl : l ≠ []) (hpos : 0 < l'.length) (hlt : l'.length < 2 ^ k) (hl' : P k l') :
    Merkle.sweepUp hashes inner (root (hashPair hashes) k l') =
        root (hashPair hashes) (Nat.clog 2 (l ++ l').length) (l ++ l') ∧
      P (Nat.clog 2 (l ++ l').length) (l ++ l') := by
  induction hc generalizing l' with
  | nil => exact absurd rfl hl
  | @none k inner l hc ih =>
    rw [Merkle.sweepUp, if_neg (hc.all_isNone_iff.not.mpr hl),
      ← root_of_length_le (hashPair hashes) hlt.le]
    have hlt' : l'.length < 2 ^ (k + 1) :=
      hlt.trans_le (Nat.pow_le_pow_right (by norm_num) (Nat.le_succ k))
    exact ih hl hpos hlt' (hP.copy hlt.le hl')
  | @some k inner l l₂ hc hlen₂ hl₂ ih =>
    have hjoin : P (k + 1) (l₂ ++ l') :=
      hP.join hlen₂ hpos hl₂ hl' fun _ h => absurd h hlt.ne
    have hlen : (l₂ ++ l').length < 2 ^ (k + 1) := by
      rw [length_append, hlen₂, pow_succ]
      omega
    rw [Merkle.sweepUp, ← root_append (hashPair hashes) hlen₂ hpos]
    by_cases hnil : l = []
    · subst hnil
      rw [sweepUp_of_all_isNone (hc.all_isNone_iff.mpr rfl), nil_append,
        clog_length_append hlen₂ hpos hlt.le]
      exact ⟨rfl, hjoin⟩
    · rw [append_assoc]
      exact ih hnil (by rw [length_append]; omega) hlen hjoin

lemma Covers.sweep (hP : PassedOn hashes strict P) (hc : Covers hashes P k inner l) (hl : l ≠ []) :
    Merkle.sweep hashes inner = root (hashPair hashes) (Nat.clog 2 l.length) l ∧
      P (Nat.clog 2 l.length) l := by
  induction hc with
  | nil => exact absurd rfl hl
  | none _ ih => exact ih hl
  | @some k inner l l' hc hlen hl' _ =>
    by_cases hnil : l = []
    · subst hnil
      have hlog : Nat.clog 2 l'.length = k := by rw [hlen]; exact Nat.clog_pow 2 k (by norm_num)
      rw [Merkle.sweep, if_pos (hc.all_isNone_iff.mpr rfl), nil_append, hlog]
      exact ⟨rfl, hl'⟩
    · have hpos : 0 < l'.length := by rw [hlen]; positivity
      have hlt : l'.length < 2 ^ (k + 1) := by
        rw [hlen]
        exact Nat.pow_lt_pow_right (by norm_num) (Nat.lt_succ_self k)
      rw [Merkle.sweep, if_neg (hc.all_isNone_iff.not.mpr hnil),
        ← root_of_length_le (hashPair hashes) hlen.le]
      exact hc.sweepUp hP hnil hpos hlt (hP.copy hlen.le hl')

end Merkle

/-! ## The root commits to the transactions -/

section Commitment

variable {hashes : Hashes} {leaves : List Uint256}

/-- The result, whatever the flag says. -/
lemma computeMerkleRoot_eq_root (hne : leaves ≠ []) :
    (computeMerkleRoot hashes leaves).1 =
      root (hashPair hashes) (Nat.clog 2 leaves.length) leaves :=
  (Merkle.Covers.sweep Merkle.passedOn_true
    (Merkle.Covers.addLeaves Merkle.passedOn_true .nil False.elim) hne).1

lemma computeMerkleRoot_isRoot (hne : leaves ≠ [])
    (hm : (computeMerkleRoot hashes leaves).2 = false) :
    Merkle.IsRoot hashes leaves (computeMerkleRoot hashes leaves).1 := by
  obtain ⟨heq, hdistinct⟩ := Merkle.Covers.sweep Merkle.passedOn_distinct
    (Merkle.Covers.addLeaves Merkle.passedOn_distinct .nil fun _ => hm) hne
  exact ⟨heq, hdistinct⟩

def hashedPairs (hashes : Hashes) (leaves : List Uint256) : List (Uint256 × Uint256) :=
  pairs (hashPair hashes) (Nat.clog 2 leaves.length) leaves

/-- Lists with the same root are the same, if neither computation reports a mutation, no two pairs
collide and neither first leaf is the hash of a pair. -/
lemma leaves_eq_of_computeMerkleRoot_eq {l l' : List Uint256} (hne : l ≠ []) (hne' : l' ≠ [])
    (hinj : HashTree.Injective (hashPair hashes) (Nat.clog 2 l.length) (Nat.clog 2 l'.length) l l')
    (hap : HashTree.HeadApart (hashPair hashes) (Nat.clog 2 l'.length) l l')
    (hap' : HashTree.HeadApart (hashPair hashes) (Nat.clog 2 l.length) l' l)
    (hm : (computeMerkleRoot hashes l).2 = false) (hm' : (computeMerkleRoot hashes l').2 = false)
    (heq : (computeMerkleRoot hashes l).1 = (computeMerkleRoot hashes l').1) : l = l' := by
  have hroot := computeMerkleRoot_isRoot hne hm
  have hroot' := computeMerkleRoot_isRoot hne' hm'
  have hpos := length_pos_iff.mpr hne
  have hpos' := length_pos_iff.mpr hne'
  have hle := Nat.le_pow_clog (b := 2) (by norm_num) l.length
  have hle' := Nat.le_pow_clog (b := 2) (by norm_num) l'.length
  have hroots := hroot.eq.symm.trans (heq.trans hroot'.eq)
  have hheight := height_eq_of_root_eq hpos hle hpos' hle' hinj hap hap' hroots
  have hd' := hroot'.distinct
  rw [← hheight] at hroots hd' hinj hle'
  exact leaves_eq_of_root_eq hpos hle hpos' hle' hroot.distinct hd' hinj hroots

/-- The root binds the leaves: lists that are reported as not mutated and have the same root are the
same, if no two hashed pairs collide and no leaf is the hash of a pair. The root of no leaves is 0,
which says nothing. -/
theorem leaves_eq_of_not_mutated {l l' : List Uint256} (hnil : l = [] ↔ l' = [])
    (hcollision : ∀ p ∈ hashedPairs hashes l ++ hashedPairs hashes l',
      ∀ q ∈ hashedPairs hashes l ++ hashedPairs hashes l',
        hashPair hashes p.1 p.2 = hashPair hashes q.1 q.2 → p = q)
    (hapart : ∀ a ∈ l ++ l', ∀ q ∈ hashedPairs hashes l ++ hashedPairs hashes l',
      a ≠ hashPair hashes q.1 q.2)
    (hm : (computeMerkleRoot hashes l).2 = false) (hm' : (computeMerkleRoot hashes l').2 = false)
    (heq : (computeMerkleRoot hashes l).1 = (computeMerkleRoot hashes l').1) : l = l' := by
  by_cases hne : l = []
  · rw [hne, hnil.mp hne]
  · refine leaves_eq_of_computeMerkleRoot_eq hne (hne ∘ hnil.mpr) ?_ ?_ ?_ hm hm' heq
    · intro p hp q hq
      exact hcollision p (mem_append_left _ hp) q (mem_append_right _ hq)
    · intro a ha q hq
      exact hapart a (mem_append_left _ (mem_of_mem_head? ha)) q
        (mem_append_right _ hq)
    · intro a ha q hq
      exact hapart a (mem_append_right _ (mem_of_mem_head? ha)) q
        (mem_append_left _ hq)

def lengthHash : Hashes where
  hash256 bytes := BitVec.ofNat 256 bytes.length
  scrypt _ := 0

lemma hashPair_lengthHash (a b : Uint256) : hashPair lengthHash a b = 64 := by
  simp [hashPair, lengthHash, writeUInt256]

theorem leaves_eq_of_not_mutated_pair : ([1, 2] : List Uint256) = [1, 2] := by
  have hpairs : hashedPairs lengthHash [1, 2] = [(1, 2)] := rfl
  have hmem {p} (hp : p ∈ hashedPairs lengthHash [1, 2] ++ hashedPairs lengthHash [1, 2]) :
      p = (1, 2) := by
    grind
  have hm : (computeMerkleRoot lengthHash [1, 2]).2 = false := rfl
  refine leaves_eq_of_not_mutated Iff.rfl (fun p hp q hq _ => (hmem hp).trans (hmem hq).symm)
    (fun a ha q _ => ?_) hm hm rfl
  rw [hashPair_lengthHash]
  obtain rfl | rfl : a = 1 ∨ a = 2 := by grind
  · decide
  · decide

/-- No transactions, and one whose hash is 0. -/
theorem computeMerkleRoot_nil_singleton :
    computeMerkleRoot lengthHash [] = (0, false) ∧ computeMerkleRoot lengthHash [0] = (0, false) ∧
      hashedPairs lengthHash [] = [] ∧ hashedPairs lengthHash [0] = [] :=
  ⟨rfl, rfl, by simp [hashedPairs, pairs], by simp [hashedPairs, pairs]⟩

def merklePairs (hashes : Hashes) (vtx : List CTransaction) : List Bytes :=
  let leaves := vtx.map (CTransaction.getHash hashes)
  (pairs (hashPair hashes) (Nat.clog 2 leaves.length) leaves).map fun p =>
    writeUInt256 p.1 ++ writeUInt256 p.2

def merkleInputs (hashes : Hashes) (vtx : List CTransaction) : List Bytes :=
  vtx.map CTransaction.serialize ++ merklePairs hashes vtx

/-- No two different strings of the two lists have the same hash. -/
def CollisionFree (hashes : Hashes) (xs ys : List Bytes) : Prop :=
  ∀ x ∈ xs, ∀ y ∈ ys, hashes.hash256 x = hashes.hash256 y → x = y

lemma writeUInt256_append_inj {a b c d : Uint256}
    (h : writeUInt256 a ++ writeUInt256 b = writeUInt256 c ++ writeUInt256 d) :
    (a, b) = (c, d) := by
  have hread : ∀ a b : Uint256,
      Reads (do let x ← readUInt256; let y ← readUInt256; pure (x, y))
        (writeUInt256 a ++ writeUInt256 b) (a, b) := fun a b =>
    (readUInt256_reads a).bind ((readUInt256_reads b).bind_nil (Reads.pure _))
  exact (hread a b).det (h ▸ hread c d)

section Trees

variable {vtx vtx' : List CTransaction}
variable (hcf : CollisionFree hashes (merkleInputs hashes vtx) (merkleInputs hashes vtx'))

include hcf

lemma injective_of_collisionFree : HashTree.Injective (hashPair hashes)
    (Nat.clog 2 (vtx.map (CTransaction.getHash hashes)).length)
    (Nat.clog 2 (vtx'.map (CTransaction.getHash hashes)).length)
    (vtx.map (CTransaction.getHash hashes)) (vtx'.map (CTransaction.getHash hashes)) := by
  intro p hp q hq heq
  exact writeUInt256_append_inj (hcf _ (mem_append_right _ (mem_map_of_mem hp)) _
    (mem_append_right _ (mem_map_of_mem hq)) heq)

/-- A first transaction that does not read as a pair of hashes is not taken for one. -/
lemma headApart_of_collisionFree
    (hhead : ∀ tx ∈ vtx.head?, tx.serialize ∉ merklePairs hashes vtx') :
    HashTree.HeadApart (hashPair hashes)
      (Nat.clog 2 (vtx'.map (CTransaction.getHash hashes)).length)
      (vtx.map (CTransaction.getHash hashes)) (vtx'.map (CTransaction.getHash hashes)) := by
  intro a ha q hq heq
  rw [head?_map, Option.mem_map] at ha
  obtain ⟨tx, htx, rfl⟩ := ha
  have hpair : writeUInt256 q.1 ++ writeUInt256 q.2 ∈ merklePairs hashes vtx' :=
    mem_map_of_mem hq
  have hser := hcf tx.serialize
    (mem_append_left _ (mem_map_of_mem (mem_of_mem_head? htx))) _
    (mem_append_right _ hpair) heq
  exact hhead tx htx (hser ▸ hpair)

end Trees

lemma CollisionFree.symm {xs ys : List Bytes} (h : CollisionFree hashes xs ys) :
    CollisionFree hashes ys xs :=
  fun y hy x hx heq => (h x hx y hy heq.symm).symm

lemma eq_of_map_eq_map {α β : Type} {f : α → β} {l l' : List α}
    (hinj : ∀ a ∈ l, ∀ b ∈ l', f a = f b → a = b) (h : l.map f = l'.map f) : l = l' := by
  induction l generalizing l' with
  | nil => simpa using h.symm
  | cons a l ih =>
    cases l' with
    | nil => simp at h
    | cons b l' =>
      obtain ⟨hhead, htail⟩ := cons.inj h
      rw [hinj a (by simp) b (by simp) hhead,
        ih (fun x hx y hy => hinj x (by simp [hx]) y (by simp [hy])) htail]

/-- Lists of transactions with the same merkle root are the same, if neither computation reports a
mutation and neither list starts with a transaction that reads as a pair of hashes of the other. -/
lemma vtx_eq_of_merkleRoot_eq {vtx vtx' : List CTransaction} (hne : vtx ≠ []) (hne' : vtx' ≠ [])
    (hwire : ∀ tx ∈ vtx, tx.WireForm) (hwire' : ∀ tx ∈ vtx', tx.WireForm)
    (hcf : CollisionFree hashes (merkleInputs hashes vtx) (merkleInputs hashes vtx'))
    (hhead : ∀ tx ∈ vtx.head?, tx.serialize ∉ merklePairs hashes vtx')
    (hhead' : ∀ tx ∈ vtx'.head?, tx.serialize ∉ merklePairs hashes vtx)
    (hm : (computeMerkleRoot hashes (vtx.map (CTransaction.getHash hashes))).2 = false)
    (hm' : (computeMerkleRoot hashes (vtx'.map (CTransaction.getHash hashes))).2 = false)
    (heq : (computeMerkleRoot hashes (vtx.map (CTransaction.getHash hashes))).1 =
      (computeMerkleRoot hashes (vtx'.map (CTransaction.getHash hashes))).1) : vtx = vtx' := by
  have hleaves : vtx.map (CTransaction.getHash hashes) = vtx'.map (CTransaction.getHash hashes) :=
    leaves_eq_of_computeMerkleRoot_eq (by simpa using hne) (by simpa using hne')
      (injective_of_collisionFree hcf) (headApart_of_collisionFree hcf hhead)
      (headApart_of_collisionFree hcf.symm hhead') hm hm' heq
  -- equal hashes are hashes of equal bytes, and equal bytes are equal transactions
  have htx : ∀ tx ∈ vtx, ∀ tx' ∈ vtx', tx.getHash hashes = tx'.getHash hashes → tx = tx' := by
    intro tx htx tx' htx' hhash
    refine CTransaction.serialize_injective (hwire tx htx) (hwire' tx' htx') (hcf _ ?_ _ ?_ hhash)
    · exact mem_append_left _ (mem_map_of_mem htx)
    · exact mem_append_left _ (mem_map_of_mem htx')
  exact eq_of_map_eq_map htx hleaves

end Commitment

end Jumpcoin
