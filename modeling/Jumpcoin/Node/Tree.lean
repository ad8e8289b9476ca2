import Jumpcoin.Foundation.Ancestry
import Jumpcoin.Node.State

/-!
# The tree of blocks

The entries of the block index form a tree with the genesis block as its root, and the active chain
is a path of the tree down to the root. Everything a node does keeps this: headers are added on top
of known entries, and what an entry says about its place in the tree never changes.
-/

namespace Jumpcoin

open List

def parentHash (m : BlockMap) (hash : Uint256) : Option Uint256 :=
  (m.lookup hash).bind CBlockIndex.pprev

def heightOf (m : BlockMap) (hash : Uint256) : Nat :=
  ((m.lookup hash).map CBlockIndex.nHeight).getD 0

/-- Every entry is held under its hash and stands on a known entry; only the genesis block stands on
none. -/
structure BlockTree (genesis : Uint256) (m : BlockMap) : Prop where
  keyed : Keyed m
  root : ∃ pindex, m.lookup genesis = some pindex ∧ pindex.pprev = none ∧ pindex.nHeight = 0
  linked : ∀ hash pindex, m.lookup hash = some pindex → hash ≠ genesis →
    ∃ hashPrev pindexPrev, pindex.pprev = some hashPrev ∧ m.lookup hashPrev = some pindexPrev ∧
      pindex.nHeight = pindexPrev.nHeight + 1

/-- Hashes of known entries, each the successor of the next; the last one has no predecessor. -/
inductive ActiveChain (m : BlockMap) : List Uint256 → Prop
  | nil : ActiveChain m []
  | cons {hash : Uint256} {pindex : CBlockIndex} {rest : List Uint256} :
      m.lookup hash = some pindex → pindex.pprev = rest.head? → ActiveChain m rest →
      ActiveChain m (hash :: rest)

section Tree

variable {genesis hash hashPrev : Uint256} {m m' : BlockMap} {pindex pindexPrev : CBlockIndex}

lemma parentHash_of_lookup (h : m.lookup hash = some pindex) :
    parentHash m hash = pindex.pprev := by
  rw [parentHash, h, Option.bind_some]

lemma heightOf_of_lookup (h : m.lookup hash = some pindex) : heightOf m hash = pindex.nHeight := by
  rw [heightOf, h, Option.map_some, Option.getD_some]

namespace BlockTree

variable (htree : BlockTree genesis m) {above rest : List CBlockIndex} {pindexWalk : CBlockIndex}
include htree

lemma parent_known (h : m.lookup hash = some pindex) (hprev : pindex.pprev = some hashPrev) :
    ∃ pindexPrev, m.lookup hashPrev = some pindexPrev ∧
      pindex.nHeight = pindexPrev.nHeight + 1 := by
  by_cases hgenesis : hash = genesis
  · obtain ⟨root, hroot, hnone, -⟩ := htree.root
    rw [← hgenesis, h, Option.some.injEq] at hroot
    rw [hroot, hnone] at hprev
    cases hprev
  · obtain ⟨hashPrev', pindexPrev, hprev', hknown, hheight⟩ := htree.linked hash pindex h hgenesis
    obtain rfl := Option.some.inj (hprev.symm.trans hprev')
    exact ⟨pindexPrev, hknown, hheight⟩

lemma ranked : Ranked (parentHash m) (heightOf m) := by
  intro hash hashPrev hparent
  obtain ⟨pindex, hlookup, hprev⟩ := Option.bind_eq_some_iff.mp hparent
  obtain ⟨pindexPrev, hknown, hheight⟩ := htree.parent_known hlookup hprev
  rw [heightOf_of_lookup hlookup, heightOf_of_lookup hknown, hheight]

lemma eq_genesis (h : m.lookup hash = some pindex) (hprev : pindex.pprev = none) :
    hash = genesis := by
  by_contra hne
  obtain ⟨_, _, hprev', -⟩ := htree.linked hash pindex h hne
  rw [hprev] at hprev'
  cases hprev'

/-- What holds of the genesis block, and of an entry if it holds of its predecessor, holds of every
entry. -/
lemma induction {P : Uint256 → CBlockIndex → Prop}
    (hroot : ∀ pindex, m.lookup genesis = some pindex → pindex.pprev = none → P genesis pindex)
    (hstep : ∀ hash pindex hashPrev pindexPrev, m.lookup hash = some pindex →
      pindex.pprev = some hashPrev → m.lookup hashPrev = some pindexPrev →
      P hashPrev pindexPrev → P hash pindex) (h : m.lookup hash = some pindex) : P hash pindex := by
  induction hn : pindex.nHeight generalizing hash pindex with
  | zero =>
    by_cases hgenesis : hash = genesis
    · obtain ⟨root, hlookup, hnone, -⟩ := htree.root
      subst hgenesis
      obtain rfl := Option.some.inj (h.symm.trans hlookup)
      exact hroot pindex h hnone
    · obtain ⟨_, _, -, -, hheight⟩ := htree.linked hash pindex h hgenesis
      omega
  | succ n ih =>
    have hgenesis : hash ≠ genesis := by
      rintro rfl
      obtain ⟨root, hlookup, -, hzero⟩ := htree.root
      obtain rfl := Option.some.inj (h.symm.trans hlookup)
      omega
    obtain ⟨hashPrev, pindexPrev, hprev, hknown, hheight⟩ := htree.linked hash pindex h hgenesis
    exact hstep hash pindex hashPrev pindexPrev h hprev hknown (ih hknown (by omega))

/-- The path of an entry goes on with the path of its predecessor. -/
lemma pathOf_eq (h : m.lookup hash = some pindex) (hprev : pindex.pprev = some hashPrev)
    (hknown : m.lookup hashPrev = some pindexPrev) :
    pathOf m pindex = pindex :: pathOf m pindexPrev := by
  obtain ⟨pindexPrev', hknown', hheight⟩ := htree.parent_known h hprev
  obtain rfl := Option.some.inj (hknown.symm.trans hknown')
  simp [pathOf, hheight, ancestry, hprev, hknown]

omit htree in
lemma pathOf_root (hprev : pindex.pprev = none) : pathOf m pindex = [pindex] := by
  unfold pathOf
  cases pindex.nHeight <;> simp [ancestry, hprev]

section

variable (h : m.lookup hash = some pindex)
include h

/-- The path of an entry holds its ancestors. -/
lemma mem_pathOf :
    pindexWalk ∈ pathOf m pindex ↔ ∃ hashWalk, m.lookup hashWalk = some pindexWalk ∧
      Ancestor (parentHash m) hashWalk hash := by
  refine htree.induction (P := fun hash pindex => pindexWalk ∈ pathOf m pindex ↔ ∃ hashWalk,
    m.lookup hashWalk = some pindexWalk ∧ Ancestor (parentHash m) hashWalk hash) ?_ ?_ h
  · intro pindex hlookup hprev
    rw [pathOf_root hprev, mem_singleton]
    constructor
    · rintro rfl
      exact ⟨genesis, hlookup, .self⟩
    · rintro ⟨hashWalk, hwalk, hanc⟩
      cases hanc with
      | self => exact Option.some.inj (hwalk.symm.trans hlookup)
      | up hparent =>
        rw [parentHash_of_lookup hlookup, hprev] at hparent
        cases hparent
  · intro hash pindex hashPrev pindexPrev hlookup hprev hknown ih
    rw [htree.pathOf_eq hlookup hprev hknown, mem_cons, ih]
    have hparent : parentHash m hash = some hashPrev := by rw [parentHash_of_lookup hlookup, hprev]
    constructor
    · rintro (rfl | ⟨hashWalk, hwalk, hanc⟩)
      · exact ⟨hash, hlookup, .self⟩
      · exact ⟨hashWalk, hwalk, .up hparent hanc⟩
    · rintro ⟨hashWalk, hwalk, hanc⟩
      cases hanc with
      | self => exact .inl (Option.some.inj (hwalk.symm.trans hlookup))
      | up hparent' hanc =>
        obtain rfl := Option.some.inj (hparent.symm.trans hparent')
        exact .inr ⟨hashWalk, hwalk, hanc⟩

/-- Later entries of a path are ancestors of the earlier ones. -/
lemma pathOf_pairwise :
    (pathOf m pindex).Pairwise fun above below =>
      Ancestor (parentHash m) below.hashBlock above.hashBlock := by
  refine htree.induction (P := fun _ pindex => (pathOf m pindex).Pairwise fun above below =>
    Ancestor (parentHash m) below.hashBlock above.hashBlock) ?_ ?_ h
  · intro pindex _ hprev
    rw [pathOf_root hprev]
    exact pairwise_singleton _ _
  · intro hash pindex hashPrev pindexPrev hlookup hprev hknown ih
    rw [htree.pathOf_eq hlookup hprev hknown]
    refine pairwise_cons.mpr ⟨fun below hbelow => ?_, ih⟩
    obtain ⟨hashBelow, hwalk, hanc⟩ := (htree.mem_pathOf hknown).mp hbelow
    rw [htree.keyed hashBelow below hwalk, htree.keyed hash pindex hlookup]
    exact .up ((parentHash_of_lookup hlookup).trans hprev) hanc

/-- What is left of a path from an entry on is the path of that entry. -/
lemma pathOf_suffix (hpath : pathOf m pindex = above ++ pindexWalk :: rest) :
    m.lookup pindexWalk.hashBlock = some pindexWalk ∧ pathOf m pindexWalk = pindexWalk :: rest := by
  induction above generalizing hash pindex with
  | nil =>
    obtain ⟨tail, hhead⟩ : ∃ tail, pathOf m pindex = pindex :: tail := by
      exact ⟨_, rfl⟩
    rw [hhead, nil_append, cons.injEq] at hpath
    obtain ⟨rfl, rfl⟩ := hpath
    exact ⟨htree.keyed hash pindex h ▸ h, hhead⟩
  | cons first above ih =>
    cases hprev : pindex.pprev with
    | none =>
      rw [pathOf_root hprev] at hpath
      simp at hpath
    | some hashPrev =>
      obtain ⟨pindexPrev, hknown, -⟩ := htree.parent_known h hprev
      rw [htree.pathOf_eq h hprev hknown, cons_append, cons.injEq] at hpath
      exact ih hknown hpath.2

/-- Next to an entry of a path stands its predecessor. -/
lemma pathOf_next {pindexWalk pindexNext : CBlockIndex}
    (hpath : pathOf m pindex = above ++ pindexWalk :: pindexNext :: rest) :
    pindexWalk.pprev = some pindexNext.hashBlock ∧
      pindexWalk.nHeight = pindexNext.nHeight + 1 := by
  obtain ⟨hknown, hpath⟩ := htree.pathOf_suffix h hpath
  cases hprev : pindexWalk.pprev with
  | none =>
    rw [pathOf_root hprev] at hpath
    simp at hpath
  | some hashPrev =>
    obtain ⟨pindexPrev, hlookup, hheight⟩ := htree.parent_known hknown hprev
    rw [htree.pathOf_eq hknown hprev hlookup, cons.injEq, pathOf, cons.injEq] at hpath
    obtain ⟨-, rfl, -⟩ := hpath
    exact ⟨by rw [htree.keyed hashPrev _ hlookup], hheight⟩

/-- `GetAncestor` at the height of an entry finds that entry exactly if it is an ancestor. -/
lemma getAncestor_eq_iff {hashAnc : Uint256} {pindexAnc : CBlockIndex}
    (hanc : m.lookup hashAnc = some pindexAnc) :
    (getAncestor (pathOf m pindex) pindexAnc.nHeight).map CBlockIndex.hashBlock = some hashAnc ↔
      Ancestor (parentHash m) hashAnc hash := by
  have hbelow : Ancestor (parentHash m) hashAnc hash → pindexAnc.nHeight ≤ pindex.nHeight := by
    intro hancestor
    have hle := hancestor.height_le htree.ranked
    rwa [heightOf_of_lookup h, heightOf_of_lookup hanc] at hle
  have hfind : getAncestor (pathOf m pindex) pindexAnc.nHeight =
      if pindex.nHeight < pindexAnc.nHeight then none
      else (pathOf m pindex).find? fun pindexWalk =>
        decide ((pindexWalk.nHeight : Int) = pindexAnc.nHeight) := by
    rw [pathOf, getAncestor]
    simp only [Int.natCast_nonneg, not_lt_of_ge, or_false, Nat.cast_lt]
  rw [hfind]
  constructor
  · intro hfound
    obtain ⟨pindexWalk, hwalk, hhash⟩ := Option.map_eq_some_iff.mp hfound
    split_ifs at hwalk
    obtain ⟨hashWalk, hlookup, hancestor⟩ := (htree.mem_pathOf h).mp (mem_of_find?_eq_some hwalk)
    rwa [← hhash, htree.keyed hashWalk pindexWalk hlookup]
  · intro hancestor
    have hmem : pindexAnc ∈ pathOf m pindex := (htree.mem_pathOf h).mpr ⟨hashAnc, hanc, hancestor⟩
    rw [if_neg (hbelow hancestor).not_gt]
    have hsome : ((pathOf m pindex).find? fun pindexWalk =>
        decide ((pindexWalk.nHeight : Int) = pindexAnc.nHeight)).isSome = true :=
      find?_isSome.mpr ⟨pindexAnc, hmem, by simp⟩
    obtain ⟨pindexWalk, hwalk⟩ := Option.isSome_iff_exists.mp hsome
    have hheight : pindexWalk.nHeight = pindexAnc.nHeight := by
      simpa using find?_some hwalk
    obtain ⟨hashWalk, hlookup, hancestor'⟩ :=
      (htree.mem_pathOf h).mp (mem_of_find?_eq_some hwalk)
    have heq : hashWalk = hashAnc := hancestor'.eq_of_height_eq htree.ranked hancestor (by
      rw [heightOf_of_lookup hlookup, heightOf_of_lookup hanc, hheight])
    rw [hwalk, Option.map_some, htree.keyed hashWalk pindexWalk hlookup, heq]

end

lemma sameIndex (hsame : SameIndex m m') : BlockTree genesis m' := by
  refine ⟨htree.keyed.sameIndex hsame, ?_, ?_⟩
  · obtain ⟨pindex, h, hprev, hheight⟩ := htree.root
    obtain ⟨pindex', h', heq⟩ := hsame.kept genesis pindex h
    exact ⟨pindex', h', heq.pprev.trans hprev, heq.nHeight.trans hheight⟩
  · intro hash pindex' h' hne
    obtain ⟨pindex, h, heq⟩ := hsame.exists_of_lookup h'
    obtain ⟨hashPrev, pindexPrev, hprev, hknown, hheight⟩ := htree.linked hash pindex h hne
    obtain ⟨pindexPrev', hknown', heqPrev⟩ := hsame.kept hashPrev pindexPrev hknown
    exact ⟨hashPrev, pindexPrev', heq.pprev.trans hprev, hknown', by
      rw [heq.nHeight, heqPrev.nHeight, hheight]⟩

/-- The tree grows by an entry on top of a known one. -/
lemma insert (hunknown : m.lookup hash = none) (hhash : pindex.hashBlock = hash)
    (hprev : pindex.pprev = some hashPrev) (hknown : m.lookup hashPrev = some pindexPrev)
    (hheight : pindex.nHeight = pindexPrev.nHeight + 1) :
    BlockTree genesis (m.insert hash pindex) := by
  have hold : ∀ {hash' pindex'}, m.lookup hash' = some pindex' →
      (m.insert hash pindex).lookup hash' = some pindex' := by
    intro hash' pindex' h
    refine (Finmap.lookup_insert_of_ne _ ?_).trans h
    rintro rfl
    rw [hunknown] at h
    cases h
  refine ⟨hhash ▸ htree.keyed.insert pindex, ?_, ?_⟩
  · obtain ⟨root, h, hroot⟩ := htree.root
    exact ⟨root, hold h, hroot⟩
  · intro hash' pindex' h hne
    rcases lookup_insert_cases h with ⟨rfl, rfl⟩ | ⟨-, h⟩
    · exact ⟨hashPrev, pindexPrev, hprev, hold hknown, hheight⟩
    · obtain ⟨hashPrev', pindexPrev', hprev', hknown', hheight'⟩ := htree.linked hash' pindex' h hne
      exact ⟨hashPrev', pindexPrev', hprev', hold hknown', hheight'⟩

end BlockTree

lemma SameIndex.parentHash_eq (hsame : SameIndex m m') : parentHash m' = parentHash m := by
  funext hash
  cases h : m.lookup hash with
  | none => rw [parentHash, parentHash, h, hsame.unknown hash h]
  | some pindex =>
    obtain ⟨pindex', h', heq⟩ := hsame.kept hash pindex h
    rw [parentHash_of_lookup h, parentHash_of_lookup h', heq.pprev]

lemma Extends.parentHash (hext : Extends m m')
    (h : parentHash m hash = some hashPrev) : parentHash m' hash = some hashPrev := by
  obtain ⟨pindex, hlookup, hprev⟩ := Option.bind_eq_some_iff.mp h
  obtain ⟨pindex', hlookup', heq⟩ := hext hash pindex hlookup
  rw [parentHash_of_lookup hlookup', heq.pprev, hprev]

def isBlockTree (genesis : Uint256) (m : BlockMap) : Bool :=
  (m.lookup genesis).any (fun pindex => pindex.pprev == none && pindex.nHeight == 0) &&
    m.hashes.all fun hash => (m.lookup hash).any fun pindex => pindex.hashBlock == hash &&
      (hash == genesis || (pindex.pprev.bind m.lookup).any fun pindexPrev =>
        pindex.nHeight == pindexPrev.nHeight + 1)

lemma blockTree_iff : BlockTree genesis m ↔ isBlockTree genesis m = true := by
  rw [isBlockTree, Bool.and_eq_true, all_eq_true]
  constructor
  · intro htree
    obtain ⟨root, hroot, hprev, hheight⟩ := htree.root
    refine ⟨by simp [hroot, hprev, hheight], fun hash hmem => ?_⟩
    obtain ⟨pindex, hlookup⟩ := Option.isSome_iff_exists.mp (BlockMap.mem_hashes.mp hmem)
    by_cases hgenesis : hash = genesis
    · simp [hlookup, htree.keyed hash pindex hlookup, hgenesis]
    · obtain ⟨hashPrev, pindexPrev, hprev, hknown, hheight⟩ :=
        htree.linked hash pindex hlookup hgenesis
      simp [hlookup, htree.keyed hash pindex hlookup, hprev, hknown, hheight]
  · rintro ⟨hroot, hall⟩
    have hentry : ∀ hash pindex, m.lookup hash = some pindex → pindex.hashBlock = hash ∧
        (hash = genesis ∨ (pindex.pprev.bind m.lookup).any fun pindexPrev =>
          pindex.nHeight == pindexPrev.nHeight + 1) := by
      intro hash pindex hlookup
      have hcheck := hall hash (BlockMap.mem_hashes.mpr (by rw [hlookup, Option.isSome_some]))
      simpa [hlookup] using hcheck
    refine ⟨fun hash pindex hlookup => (hentry hash pindex hlookup).1, ?_, ?_⟩
    · cases hlookup : m.lookup genesis with
      | none => simp [hlookup] at hroot
      | some root => exact ⟨root, rfl, by simpa [hlookup] using hroot⟩
    · intro hash pindex hlookup hne
      have hany := (hentry hash pindex hlookup).2.resolve_left hne
      cases hprev : pindex.pprev with
      | none => simp [hprev] at hany
      | some hashPrev =>
        cases hknown : m.lookup hashPrev with
        | none => simp [hprev, hknown] at hany
        | some pindexPrev =>
          exact ⟨hashPrev, pindexPrev, rfl, hknown, by simpa [hprev, hknown] using hany⟩

instance : Decidable (BlockTree genesis m) := decidable_of_iff' _ blockTree_iff

/-! ## The active chain -/

def isActiveChain (m : BlockMap) : List Uint256 → Bool
  | [] => true
  | hash :: rest => (m.lookup hash).any (fun pindex => pindex.pprev == rest.head?) &&
      isActiveChain m rest

lemma activeChain_iff {l : List Uint256} : ActiveChain m l ↔ isActiveChain m l = true := by
  induction l with
  | nil => exact ⟨fun _ => rfl, fun _ => .nil⟩
  | cons hash rest ih =>
    constructor
    · intro hactive
      cases hactive with
      | cons h hprev hrest => simp [isActiveChain, h, hprev, ih.mp hrest]
    · intro hcheck
      cases h : m.lookup hash with
      | none => simp [isActiveChain, h] at hcheck
      | some pindex =>
        simp only [isActiveChain, h, Option.any_some, Bool.and_eq_true, beq_iff_eq] at hcheck
        exact .cons h hcheck.1 (ih.mpr hcheck.2)

instance {l : List Uint256} : Decidable (ActiveChain m l) := decidable_of_iff' _ activeChain_iff

namespace ActiveChain

variable {l : List Uint256} {h₁ h₂ : Uint256}

lemma mono (hactive : ActiveChain m l) (hext : Extends m m') : ActiveChain m' l := by
  induction hactive with
  | nil => exact .nil
  | cons h hprev _ ih =>
    obtain ⟨pindex', h', heq⟩ := hext _ _ h
    exact .cons h' (heq.pprev.trans hprev) ih

lemma tail (hactive : ActiveChain m l) : ActiveChain m l.tail := by
  cases hactive with
  | nil => exact .nil
  | cons _ _ hrest => exact hrest

/-- Everything on the chain is an ancestor of its first element. -/
lemma ancestor_head (hactive : ActiveChain m (h₁ :: l)) (hmem : h₂ ∈ h₁ :: l) :
    Ancestor (parentHash m) h₂ h₁ := by
  induction l generalizing h₁ with
  | nil =>
    obtain rfl := mem_singleton.mp hmem
    exact .self
  | cons h₃ l ih =>
    cases hactive with
    | cons h hprev hrest =>
      rcases mem_cons.mp hmem with rfl | hmem
      · exact .self
      · exact .up ((parentHash_of_lookup h).trans hprev) (ih hrest hmem)

/-- Entries stand on the chain at their heights. -/
lemma height (hactive : ActiveChain m l) (htree : BlockTree genesis m) {i : Nat}
    (hi : l.reverse[i]? = some hash) : heightOf m hash = i := by
  induction hactive generalizing i hash with
  | nil => simp at hi
  | @cons head pindex rest h hprev hrest ih =>
    rw [reverse_cons] at hi
    rcases Nat.lt_or_ge i rest.reverse.length with hlt | hge
    · rw [getElem?_append_left hlt] at hi
      exact ih hi
    · rw [getElem?_append_right hge, getElem?_singleton] at hi
      split_ifs at hi with hzero
      obtain rfl := Option.some.inj hi
      rw [length_reverse] at hzero hge
      obtain rfl : i = rest.length := by omega
      cases rest with
      | nil =>
        obtain ⟨root, hroot, -, hheight⟩ := htree.root
        rw [htree.eq_genesis h hprev, heightOf_of_lookup hroot, hheight, length_nil]
      | cons hashPrev rest =>
        have hbelow : (hashPrev :: rest).reverse[rest.length]? = some hashPrev := by simp
        rw [htree.ranked head hashPrev ((parentHash_of_lookup h).trans hprev), ih hbelow,
          length_cons]

lemma height_head (hactive : ActiveChain m (hash :: l)) (htree : BlockTree genesis m) :
    heightOf m hash = l.length :=
  hactive.height htree (by simp)

end ActiveChain

end Tree

/-- The index of a node is a tree, and its active chain a path of it. -/
structure Node.Treelike (genesis : Uint256) (node : Node) : Prop where
  tree : BlockTree genesis node.mapBlockIndex
  active : ActiveChain node.mapBlockIndex node.chainActive

namespace Node.Treelike

variable {genesis hash : Uint256} {node node' : Node} {pindex : CBlockIndex}

lemma contains_iff (hnode : node.Treelike genesis)
    (h : node.mapBlockIndex.lookup hash = some pindex) :
    node.contains pindex = true ↔ hash ∈ node.chainActive := by
  rw [ChainState.contains, ChainState.hashAt, hnode.tree.keyed hash pindex h, beq_iff_eq,
    ← heightOf_of_lookup h]
  constructor
  · intro hat
    exact mem_reverse.mp (mem_of_getElem? hat)
  · intro hmem
    obtain ⟨i, hi⟩ := getElem?_of_mem (mem_reverse.mpr hmem)
    rwa [hnode.active.height hnode.tree hi]

lemma sameIndex (hnode : node.Treelike genesis)
    (hsame : SameIndex node.mapBlockIndex node'.mapBlockIndex)
    (hactive : node'.chainActive = node.chainActive) : node'.Treelike genesis :=
  ⟨hnode.tree.sameIndex hsame, hactive ▸ hnode.active.mono hsame.kept⟩

end Node.Treelike

end Jumpcoin
