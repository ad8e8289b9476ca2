import Mathlib.Tactic

/-!
# Hash trees over a list of leaves

The root of a binary hash tree in which a subtree that runs out of leaves is combined with itself.
`root k` is the root at height `k`, of a list with at most `2^k` leaves.

Two lists can have the same root because of the rule for missing leaves: a list that spells out the
copy has the root of the list without it. `Distinct` excludes this. It asks that two complete
subtrees under one node have different roots, and under it the root determines the leaves of a tree
of known height (`leaves_eq_of_root_eq`), provided that the combining function does not collide on
the pairs that occur. The height is determined as well if neither of the first leaves can be taken
for a combined value (`height_eq_of_root_eq`).

A node of the tree is named by its height and position; `segment` are the leaves under it.

## Main definitions

* `HashTree.root`: the root at a given height.
* `HashTree.pairs`: the pairs that are combined on the way to the root.
* `HashTree.Distinct`: no two complete siblings are equal.
-/

namespace Jumpcoin

open List

namespace HashTree

variable {α : Type} [Inhabited α] (node : α → α → α)

def root : Nat → List α → α
  | 0, l => l.headD default
  | k + 1, l =>
    if l.length ≤ 2 ^ k then node (root k l) (root k l)
    else node (root k (l.take (2 ^ k))) (root k (l.drop (2 ^ k)))

def pairs : Nat → List α → List (α × α)
  | 0, _ => []
  | k + 1, l =>
    if l.length ≤ 2 ^ k then (root node k l, root node k l) :: pairs k l
    else (root node k (l.take (2 ^ k)), root node k (l.drop (2 ^ k))) ::
      (pairs k (l.take (2 ^ k)) ++ pairs k (l.drop (2 ^ k)))

/-- Siblings that are both complete have different roots. -/
def Distinct : Nat → List α → Prop
  | 0, _ => True
  | k + 1, l =>
    if l.length ≤ 2 ^ k then Distinct k l
    else Distinct k (l.take (2 ^ k)) ∧ Distinct k (l.drop (2 ^ k)) ∧
      (l.length = 2 ^ (k + 1) → root node k (l.take (2 ^ k)) ≠ root node k (l.drop (2 ^ k)))

/-! ## Equations -/

section Equations

variable {node} {k : Nat} {l l₁ l₂ : List α}

lemma root_of_length_le (node : α → α → α) (h : l.length ≤ 2 ^ k) :
    root node (k + 1) l = node (root node k l) (root node k l) := by
  rw [root, if_pos h]

lemma distinct_of_length_le (h : l.length ≤ 2 ^ k) :
    Distinct node (k + 1) l ↔ Distinct node k l := by
  rw [Distinct, if_pos h]

omit [Inhabited α] in
lemma not_length_append_le (h₁ : l₁.length = 2 ^ k) (h₂ : 0 < l₂.length) :
    ¬(l₁ ++ l₂).length ≤ 2 ^ k := by
  rw [length_append]
  omega

lemma root_append (node : α → α → α) (h₁ : l₁.length = 2 ^ k) (h₂ : 0 < l₂.length) :
    root node (k + 1) (l₁ ++ l₂) = node (root node k l₁) (root node k l₂) := by
  rw [root, if_neg (not_length_append_le h₁ h₂), ← h₁, take_left, drop_left]

lemma distinct_append (h₁ : l₁.length = 2 ^ k) (h₂ : 0 < l₂.length) :
    Distinct node (k + 1) (l₁ ++ l₂) ↔ Distinct node k l₁ ∧ Distinct node k l₂ ∧
      (l₂.length = 2 ^ k → root node k l₁ ≠ root node k l₂) := by
  have hfull : (l₁ ++ l₂).length = 2 ^ (k + 1) ↔ l₂.length = 2 ^ k := by
    rw [length_append, pow_succ]
    omega
  rw [Distinct, if_neg (not_length_append_le h₁ h₂), hfull, ← h₁, take_left, drop_left]

end Equations

/-! ## The root determines the leaves -/

section Injective

variable {node} {k k' : Nat} {l l' l₁ l₂ l₁' l₂' : List α}

omit [Inhabited α] in
/-- The halves of a list that does not fit into the left one. -/
lemma exists_halves (h : ¬l.length ≤ 2 ^ k) (hle : l.length ≤ 2 ^ (k + 1)) :
    ∃ l₁ l₂, l = l₁ ++ l₂ ∧ l₁.length = 2 ^ k ∧ 0 < l₂.length ∧ l₂.length ≤ 2 ^ k := by
  rw [pow_succ] at hle
  refine ⟨l.take (2 ^ k), l.drop (2 ^ k), (take_append_drop _ _).symm, ?_, ?_, ?_⟩
  · rw [length_take]
    omega
  · rw [length_drop]
    omega
  · rw [length_drop]
    omega

omit [Inhabited α] in
lemma exists_leaf (hpos : 0 < l.length) (hle : l.length ≤ 2 ^ 0) : ∃ a, l = [a] :=
  length_eq_one_iff.mp (le_antisymm hle hpos)

lemma pairs_append (h₁ : l₁.length = 2 ^ k) (h₂ : 0 < l₂.length) :
    pairs node (k + 1) (l₁ ++ l₂) =
      (root node k l₁, root node k l₂) :: (pairs node k l₁ ++ pairs node k l₂) := by
  rw [pairs, if_neg (not_length_append_le h₁ h₂), ← h₁, take_left, drop_left]

/-- Combining does not collide on the pairs of two trees. -/
def Injective (node : α → α → α) (k k' : Nat) (l l' : List α) : Prop :=
  ∀ p ∈ pairs node k l, ∀ q ∈ pairs node k' l', node p.1 p.2 = node q.1 q.2 → p = q

/-- The first leaf of `l` is not combined from a pair of the tree over `l'`. -/
def HeadApart (node : α → α → α) (k' : Nat) (l l' : List α) : Prop :=
  ∀ a ∈ l.head?, ∀ q ∈ pairs node k' l', a ≠ node q.1 q.2

/-- `l₁` and `l₂` are the leaves of the two subtrees under the top node: both are the whole list, or
they are its halves. -/
structure Children (node : α → α → α) (k : Nat) (l l₁ l₂ : List α) : Prop where
  pos₁ : 0 < l₁.length
  le₁ : l₁.length ≤ 2 ^ k
  pos₂ : 0 < l₂.length
  le₂ : l₂.length ≤ 2 ^ k
  root_eq : root node (k + 1) l = node (root node k l₁) (root node k l₂)
  top : (root node k l₁, root node k l₂) ∈ pairs node (k + 1) l
  below : ∀ p, p ∈ pairs node k l₁ ∨ p ∈ pairs node k l₂ → p ∈ pairs node (k + 1) l
  head : l₁.head? = l.head?
  distinct : Distinct node (k + 1) l → Distinct node k l₁ ∧ Distinct node k l₂
  form : (l₁ = l ∧ l₂ = l) ∨ (l = l₁ ++ l₂ ∧ l₁.length = 2 ^ k ∧
    (Distinct node (k + 1) l → l₂.length = 2 ^ k → root node k l₁ ≠ root node k l₂))

lemma exists_children (node : α → α → α) (hpos : 0 < l.length) (hle : l.length ≤ 2 ^ (k + 1)) :
    ∃ l₁ l₂, Children node k l l₁ l₂ := by
  by_cases h : l.length ≤ 2 ^ k
  · have hpairs : pairs node (k + 1) l = (root node k l, root node k l) :: pairs node k l := by
      rw [pairs, if_pos h]
    refine ⟨l, l, hpos, h, hpos, h, root_of_length_le node h, ?_, ?_, rfl, ?_, .inl ⟨rfl, rfl⟩⟩
    · simp [hpairs]
    · intro p hp
      rw [hpairs]
      exact mem_cons_of_mem _ (or_self_iff.mp hp)
    · rw [distinct_of_length_le h]
      exact fun hd => ⟨hd, hd⟩
  · obtain ⟨l₁, l₂, rfl, h₁, h₂, h₂'⟩ := exists_halves h hle
    have hpos₁ : 0 < l₁.length := by
      rw [h₁]
      positivity
    refine ⟨l₁, l₂, hpos₁, h₁.le, h₂, h₂', root_append node h₁ h₂, ?_, ?_,
      (head?_append_of_ne_nil l₁ (length_pos_iff.mp hpos₁)).symm, ?_, .inr ⟨rfl, h₁, ?_⟩⟩
    · simp [pairs_append h₁ h₂]
    · intro p hp
      simp [pairs_append h₁ h₂, hp]
    · rw [distinct_append h₁ h₂]
      exact fun hd => ⟨hd.1, hd.2.1⟩
    · rw [distinct_append h₁ h₂]
      exact fun hd => hd.2.2

/-- Combining does not collide on the pairs of subtrees. -/
lemma Injective.of_children {m m' : List α} (hinj : Injective node (k + 1) (k' + 1) l l')
    (hc : Children node k l l₁ l₂) (hc' : Children node k' l' l₁' l₂') (hm : m = l₁ ∨ m = l₂)
    (hm' : m' = l₁' ∨ m' = l₂') : Injective node k k' m m' :=
  fun p hp q hq => hinj p (hc.below p (by grind)) q (hc'.below q (by grind))

lemma HeadApart.of_children (hap : HeadApart node (k' + 1) l l')
    (hc : Children node k l l₁ l₂) (hc' : Children node k' l' l₁' l₂') : HeadApart node k' l₁ l₁' :=
  fun a ha q hq => hap a (hc.head ▸ ha) q (hc'.below q (.inl hq))

/-- The children of the top nodes of trees with the same root have the same roots. -/
lemma Injective.children_root_eq (hinj : Injective node (k + 1) (k' + 1) l l')
    (hc : Children node k l l₁ l₂) (hc' : Children node k' l' l₁' l₂')
    (heq : root node (k + 1) l = root node (k' + 1) l') :
    root node k l₁ = root node k' l₁' ∧ root node k l₂ = root node k' l₂' :=
  Prod.mk.inj (hinj _ hc.top _ hc'.top (hc.root_eq.symm.trans (heq.trans hc'.root_eq)))

section

variable (hpos : 0 < l.length) (hle : l.length ≤ 2 ^ k) (hpos' : 0 < l'.length)
include hpos hle hpos'

/-- Trees with the same root have the same height: going down the left edges, one would otherwise
meet a first leaf in the place of a combined value. -/
lemma height_eq_of_root_eq (hle' : l'.length ≤ 2 ^ k')
    (hinj : Injective node k k' l l') (hap : HeadApart node k' l l') (hap' : HeadApart node k l' l)
    (heq : root node k l = root node k' l') : k = k' := by
  induction k generalizing k' l l' with
  | zero =>
    obtain ⟨a, rfl⟩ := exists_leaf hpos hle
    cases k' with
    | zero => rfl
    | succ k' =>
      obtain ⟨l₁, l₂, hc'⟩ := exists_children node hpos' hle'
      exact absurd (heq.trans hc'.root_eq) (hap a rfl _ hc'.top)
  | succ k ih =>
    obtain ⟨l₁, l₂, hc⟩ := exists_children node hpos hle
    cases k' with
    | zero =>
      obtain ⟨b, rfl⟩ := exists_leaf hpos' hle'
      exact absurd (heq.symm.trans hc.root_eq) (hap' b rfl _ hc.top)
    | succ k' =>
      obtain ⟨l₁', l₂', hc'⟩ := exists_children node hpos' hle'
      rw [ih hc.pos₁ hc.le₁ hc'.pos₁ hc'.le₁ (hinj.of_children hc hc' (.inl rfl) (.inl rfl))
        (hap.of_children hc hc') (hap'.of_children hc' hc) (hinj.children_root_eq hc hc' heq).1]

/-- Under `Distinct` the root of a tree of given height determines the leaves. -/
lemma leaves_eq_of_root_eq (hle' : l'.length ≤ 2 ^ k)
    (hd : Distinct node k l) (hd' : Distinct node k l') (hinj : Injective node k k l l')
    (heq : root node k l = root node k l') : l = l' := by
  induction k generalizing l l' with
  | zero =>
    obtain ⟨a, rfl⟩ := exists_leaf hpos hle
    obtain ⟨b, rfl⟩ := exists_leaf hpos' hle'
    simpa [root] using heq
  | succ k ih =>
    obtain ⟨l₁, l₂, hc⟩ := exists_children node hpos hle
    obtain ⟨l₁', l₂', hc'⟩ := exists_children node hpos' hle'
    obtain ⟨hfst, hsnd⟩ := hinj.children_root_eq hc hc' heq
    have h₁ : l₁ = l₁' := ih hc.pos₁ hc.le₁ hc'.pos₁ hc'.le₁ (hc.distinct hd).1
      (hc'.distinct hd').1 (hinj.of_children hc hc' (.inl rfl) (.inl rfl)) hfst
    have h₂ : l₂ = l₂' := ih hc.pos₂ hc.le₂ hc'.pos₂ hc'.le₂ (hc.distinct hd).2
      (hc'.distinct hd').2 (hinj.of_children hc hc' (.inr rfl) (.inr rfl)) hsnd
    rcases hc.form with ⟨rfl, rfl⟩ | ⟨rfl, hfull, hne⟩
    · rcases hc'.form with ⟨rfl, -⟩ | ⟨rfl, hfull', hne'⟩
      · exact h₁
      · -- one list spells out the copy that the other leaves to the rule
        subst h₁
        exact absurd (congrArg (root node k) h₂) (hne' hd' (h₂ ▸ hfull'))
    · rcases hc'.form with ⟨rfl, rfl⟩ | ⟨rfl, -, -⟩
      · subst h₁
        exact absurd (congrArg (root node k) h₂.symm) (hne hd (h₂ ▸ hfull))
      · rw [h₁, h₂]

/-- Trees of the same height with the same root have the same first leaf, whatever is equal
below. -/
lemma head_eq_of_root_eq (hle' : l'.length ≤ 2 ^ k) (hinj : Injective node k k l l')
    (heq : root node k l = root node k l') : l.head? = l'.head? := by
  induction k generalizing l l' with
  | zero =>
    obtain ⟨a, rfl⟩ := exists_leaf hpos hle
    obtain ⟨b, rfl⟩ := exists_leaf hpos' hle'
    simpa [root] using heq
  | succ k ih =>
    obtain ⟨l₁, l₂, hc⟩ := exists_children node hpos hle
    obtain ⟨l₁', l₂', hc'⟩ := exists_children node hpos' hle'
    rw [← hc.head, ← hc'.head]
    exact ih hc.pos₁ hc.le₁ hc'.pos₁ hc'.le₁ (hinj.of_children hc hc' (.inl rfl) (.inl rfl))
      (hinj.children_root_eq hc hc' heq).1

end

end Injective

/-! ## Nodes by position -/

section Segments

variable {β : Type} {node} {l : List β} {k pos : Nat}

def segment (l : List β) (k pos : Nat) : List β := (l.drop (pos * 2 ^ k)).take (2 ^ k)

lemma length_segment (l : List β) (k pos : Nat) :
    (segment l k pos).length = min (2 ^ k) (l.length - pos * 2 ^ k) := by
  simp [segment]

lemma length_segment_le (l : List β) (k pos : Nat) : (segment l k pos).length ≤ 2 ^ k := by
  rw [length_segment]
  exact Nat.min_le_left _ _

lemma segment_zero {pos : Nat} (h : pos < l.length) : segment l 0 pos = [l[pos]] := by
  simp [segment, take_one, head?_drop, getElem?_eq_getElem h]

lemma segment_top {k : Nat} (h : l.length ≤ 2 ^ k) : segment l k 0 = l := by
  simp [segment, take_of_length_le h]

lemma head?_segment (l : List β) (k pos : Nat) : (segment l k pos).head? = l[pos * 2 ^ k]? := by
  have hpos : 2 ^ k ≠ 0 := by positivity
  rw [segment, head?_take, if_neg hpos, head?_drop]

/-- The leaves under a node are those under its left and its right child. -/
lemma segment_succ (l : List β) (k pos : Nat) :
    segment l (k + 1) pos = segment l k (pos * 2) ++ segment l k (pos * 2 + 1) := by
  have hstart : pos * 2 ^ (k + 1) = pos * 2 * 2 ^ k := by ring
  have hnext : (pos * 2 + 1) * 2 ^ k = pos * 2 * 2 ^ k + 2 ^ k := by ring
  have hdouble : 2 ^ (k + 1) = 2 ^ k + 2 ^ k := by ring
  rw [segment, segment, segment, hstart, hnext, hdouble, take_add, drop_drop]

lemma segment_succ_of_le (h : l.length ≤ (pos * 2 + 1) * 2 ^ k) :
    segment l (k + 1) pos = segment l k (pos * 2) := by
  have hempty : segment l k (pos * 2 + 1) = [] := by
    rw [← length_eq_zero_iff, length_segment, Nat.sub_eq_zero_of_le h, Nat.min_zero]
  rw [segment_succ, hempty, append_nil]

lemma length_segment_left (h : (pos * 2 + 1) * 2 ^ k < l.length) :
    (segment l k (pos * 2)).length = 2 ^ k ∧ 0 < (segment l k (pos * 2 + 1)).length := by
  have hnext : (pos * 2 + 1) * 2 ^ k = pos * 2 * 2 ^ k + 2 ^ k := by ring
  have hpos : 0 < 2 ^ k := by positivity
  rw [length_segment, length_segment]
  omega

variable {l : List α} {k pos : Nat}

section

variable (node : α → α → α) {top : Nat}

/-- The value of a node with one child. -/
lemma root_segment_of_le (h : l.length ≤ (pos * 2 + 1) * 2 ^ k) :
    root node (k + 1) (segment l (k + 1) pos) =
      node (root node k (segment l k (pos * 2))) (root node k (segment l k (pos * 2))) := by
  rw [segment_succ_of_le h, root_of_length_le node (length_segment_le _ _ _)]

/-- The value of a node with two children. -/
lemma root_segment_of_lt (h : (pos * 2 + 1) * 2 ^ k < l.length) :
    root node (k + 1) (segment l (k + 1) pos) =
      node (root node k (segment l k (pos * 2))) (root node k (segment l k (pos * 2 + 1))) := by
  obtain ⟨hfull, hright⟩ := length_segment_left h
  rw [segment_succ, root_append node hfull hright]

lemma mem_pairs_segment_of_le (h : l.length ≤ (pos * 2 + 1) * 2 ^ k) :
    (root node k (segment l k (pos * 2)), root node k (segment l k (pos * 2))) ∈
      pairs node (k + 1) (segment l (k + 1) pos) := by
  rw [segment_succ_of_le h, pairs, if_pos (length_segment_le _ _ _)]
  exact mem_cons_self

lemma mem_pairs_segment_of_lt (h : (pos * 2 + 1) * 2 ^ k < l.length) :
    (root node k (segment l k (pos * 2)), root node k (segment l k (pos * 2 + 1))) ∈
      pairs node (k + 1) (segment l (k + 1) pos) := by
  obtain ⟨hfull, hright⟩ := length_segment_left h
  rw [segment_succ, pairs_append hfull hright]
  exact mem_cons_self

/-- What is combined under a child is combined under its parent. -/
lemma pairs_segment_subset (hpos : pos * 2 ^ k < l.length) :
    pairs node k (segment l k pos) ⊆ pairs node (k + 1) (segment l (k + 1) (pos / 2)) := by
  by_cases hright : (pos / 2 * 2 + 1) * 2 ^ k < l.length
  · obtain ⟨hfull, hnonempty⟩ := length_segment_left hright
    rw [segment_succ, pairs_append hfull hnonempty]
    obtain heven | hodd : pos = pos / 2 * 2 ∨ pos = pos / 2 * 2 + 1 := by omega
    · rw [← heven]
      exact fun p hp => mem_cons_of_mem _ (mem_append_left _ hp)
    · rw [← hodd]
      exact fun p hp => mem_cons_of_mem _ (mem_append_right _ hp)
  · have heven : pos / 2 * 2 = pos := by
      by_contra hne
      have hodd : pos / 2 * 2 + 1 = pos := by omega
      rw [hodd] at hright
      exact hright hpos
    rw [segment_succ_of_le (not_lt.mp hright), heven, pairs, if_pos (length_segment_le _ _ _)]
    exact fun p hp => mem_cons_of_mem _ hp

/-- What is combined under a node is combined in the tree. -/
lemma pairs_segment_subset_top (hle : l.length ≤ 2 ^ top) (hk : k ≤ top)
    (hpos : pos * 2 ^ k < l.length) : pairs node k (segment l k pos) ⊆ pairs node top l := by
  induction hd : top - k generalizing k pos with
  | zero =>
    obtain rfl : k = top := by omega
    have hzero : pos = 0 := by
      by_contra hne
      have hge := Nat.le_mul_of_pos_left (2 ^ k) (Nat.pos_of_ne_zero hne)
      omega
    rw [hzero, segment_top hle]
    exact List.Subset.refl _
  | succ d ih =>
    have hparent : pos / 2 * 2 ^ (k + 1) < l.length := by
      have hhalf : pos / 2 * 2 ^ (k + 1) = pos / 2 * 2 * 2 ^ k := by ring
      rw [hhalf]
      exact (Nat.mul_le_mul_right _ (Nat.div_mul_le_self pos 2)).trans_lt hpos
    exact List.Subset.trans (pairs_segment_subset node hpos)
      (ih (by omega) hparent (by omega))

/-- Siblings in a tree of different leaves without collisions have different values. -/
lemma root_segment_ne (hle : l.length ≤ 2 ^ top)
    (hnodup : l.Nodup) (hinj : Injective node top top l l) (hk : k + 1 ≤ top)
    (hright : (pos * 2 + 1) * 2 ^ k < l.length) :
    root node k (segment l k (pos * 2)) ≠ root node k (segment l k (pos * 2 + 1)) := by
  intro heq
  obtain ⟨hfull, hnonempty⟩ := length_segment_left hright
  have hpow : 0 < 2 ^ k := by positivity
  have hleft : pos * 2 * 2 ^ k < l.length := by
    have hnext : (pos * 2 + 1) * 2 ^ k = pos * 2 * 2 ^ k + 2 ^ k := by ring
    omega
  have hsub : Injective node k k (segment l k (pos * 2)) (segment l k (pos * 2 + 1)) :=
    fun p hp q hq => hinj p (pairs_segment_subset_top node hle (by omega) hleft hp) q
      (pairs_segment_subset_top node hle (by omega) hright hq)
  have hhead := head_eq_of_root_eq (by omega) (length_segment_le _ _ _) hnonempty
    (length_segment_le _ _ _) hsub heq
  rw [head?_segment, head?_segment, getElem?_eq_getElem hleft,
    getElem?_eq_getElem hright, Option.some.injEq, hnodup.getElem_inj_iff] at hhead
  have hnext : (pos * 2 + 1) * 2 ^ k = pos * 2 * 2 ^ k + 2 ^ k := by ring
  omega

end

end Segments

end HashTree

end Jumpcoin
