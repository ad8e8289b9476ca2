import Jumpcoin.Consensus.Merkle
import Jumpcoin.Consensus.TxVerify

/-!
# Proofs that transactions are in a block

`CPartialMerkleTree` of `merkleblock.cpp`: the part of a block's hash tree that shows some of its
transactions to be there. The tree is walked depth first. `TraverseAndBuild` stores a bit for each
node met, and descends only where a matched transaction lies below; elsewhere, and at the leaves, it
stores the hash of the node. `TraverseAndExtract` walks the same way over what was stored, by
whomever, and collects the matched transactions.

A node is named by its height and its position among the nodes of that height, so that the leaves
under it are a `segment` of the list of transactions and its hash is the `root` of the segment. The
positions and counters are `unsigned int` in the source; a walk accepted by `ExtractMatches` stays
far below the limit, and they are natural numbers here.

## Main results

* `CPartialMerkleTree.traverseAndExtract_build`: the walk over what was built finds what was
  matched.
* `CPartialMerkleTree.traverseAndExtract_sound`: a walk that gives the hash of a node has found only
leaves under that node.
-/

namespace Jumpcoin

open Codec HashTree List Nat

structure CPartialMerkleTree where
  nTransactions : UInt32
  vBits : List Bool
  vHash : List Uint256
  fBad : Bool
deriving DecidableEq

namespace CPartialMerkleTree

/-! ## Building a tree -/

def calcTreeWidth (nTransactions : UInt32) (height : Nat) : Nat :=
  (nTransactions.toNat + 2 ^ height - 1) % 2 ^ 32 / 2 ^ height

/-- The loop `while (CalcTreeWidth(nHeight) > 1) nHeight++`, which ends at height 32 or before. -/
def heightLoop (nTransactions : UInt32) : Nat → Nat → Nat
  | 0, nHeight => nHeight
  | turns + 1, nHeight =>
    if 1 < calcTreeWidth nTransactions nHeight then heightLoop nTransactions turns (nHeight + 1)
    else nHeight

def treeHeight (nTransactions : UInt32) : Nat :=
  heightLoop nTransactions 32 0

section Build

variable (hashes : Hashes) (nTransactions : UInt32) (vTxid : List Uint256) (vMatch : List Bool)

def calcHash : Nat → Nat → Uint256
  | 0, pos => vTxid.getD pos 0
  | height + 1, pos =>
    let left := calcHash height (pos * 2)
    let right :=
      if pos * 2 + 1 < calcTreeWidth nTransactions height then calcHash height (pos * 2 + 1)
      else left
    hashPair hashes left right

def matchesBelow (height pos : Nat) : List Nat :=
  (List.range' (pos * 2 ^ height) (2 ^ height)).filter fun p =>
    p < nTransactions.toNat && vMatch.getD p false

def parentOfMatch (height pos : Nat) : Bool :=
  (List.range' (pos * 2 ^ height) (2 ^ height)).any fun p =>
    p < nTransactions.toNat && vMatch.getD p false

/-- `TraverseAndBuild`: the bits and hashes that a node adds. -/
def traverseAndBuild : Nat → Nat → List Bool × List Uint256
  | 0, pos =>
    ([parentOfMatch nTransactions vMatch 0 pos], [calcHash hashes nTransactions vTxid 0 pos])
  | height + 1, pos =>
    if parentOfMatch nTransactions vMatch (height + 1) pos then
      let left := traverseAndBuild height (pos * 2)
      if pos * 2 + 1 < calcTreeWidth nTransactions height then
        let right := traverseAndBuild height (pos * 2 + 1)
        (true :: (left.1 ++ right.1), left.2 ++ right.2)
      else (true :: left.1, left.2)
    else ([false], [calcHash hashes nTransactions vTxid (height + 1) pos])

def ofMatches : CPartialMerkleTree :=
  let nTransactions := UInt32.ofNat vTxid.length
  let built := traverseAndBuild hashes nTransactions vTxid vMatch (treeHeight nTransactions) 0
  ⟨nTransactions, built.1, built.2, false⟩

end Build

/-! ## Serialization -/

/-- Flag bits, packed per 8 in a byte, least significant bit first. -/
def packBits (vBits : List Bool) : Bytes :=
  (List.range ((vBits.length + 7) / 8)).map fun i =>
    UInt8.ofNat (Nat.ofBits fun j : Fin 8 => vBits.getD (8 * i + j) false)

def unpackBits (vBytes : Bytes) : List Bool :=
  (List.range (vBytes.length * 8)).map fun p => (vBytes.getD (p / 8) 0).toNat.testBit (p % 8)

def serialize (tree : CPartialMerkleTree) : Bytes :=
  writeUInt32 tree.nTransactions ++
    (writeVector writeUInt256 tree.vHash ++ writeByteVector (packBits tree.vBits))

def unserialize : Reader CPartialMerkleTree := do
  let nTransactions ← readUInt32
  let vHash ← readVector readUInt256
  let vBytes ← readByteVector
  pure ⟨nTransactions, unpackBits vBytes, vHash, false⟩

/-! ## Extracting the matches -/

/-- What `TraverseAndExtract` changes as it goes. -/
structure Extraction where
  nBitsUsed : Nat
  nHashUsed : Nat
  vMatch : List Uint256
  vnIndex : List Nat
  fBad : Bool
deriving DecidableEq

/-- Use the next stored hash, as a matched transaction at position `pos` if it is one. -/
def useHash (tree : CPartialMerkleTree) (matched : Bool) (pos : Nat) (s : Extraction) :
    Uint256 × Extraction :=
  match tree.vHash[s.nHashUsed]? with
  | none => (0, { s with fBad := true })
  | some hash =>
    let s := { s with nHashUsed := s.nHashUsed + 1 }
    if matched then (hash, { s with vMatch := s.vMatch ++ [hash], vnIndex := s.vnIndex ++ [pos] })
    else (hash, s)

def traverseAndExtract (hashes : Hashes) (tree : CPartialMerkleTree) :
    Nat → Nat → Extraction → Uint256 × Extraction
  | height, pos, s =>
    match tree.vBits[s.nBitsUsed]? with
    | none => (0, { s with fBad := true })
    | some fParentOfMatch =>
      let s := { s with nBitsUsed := s.nBitsUsed + 1 }
      match height with
      | 0 => useHash tree fParentOfMatch pos s
      | height + 1 =>
        if fParentOfMatch then
          let (left, s) := traverseAndExtract hashes tree height (pos * 2) s
          if pos * 2 + 1 < calcTreeWidth tree.nTransactions height then
            let (right, s) := traverseAndExtract hashes tree height (pos * 2 + 1) s
            (hashPair hashes left right, { s with fBad := s.fBad || right == left })
          else (hashPair hashes left left, s)
        else useHash tree false pos s

/-- `ExtractMatches`, called with empty vectors: the merkle root, or 0 in case of failure, and the
vectors. -/
def extractMatches (hashes : Hashes) (tree : CPartialMerkleTree) :
    Uint256 × List Uint256 × List Nat :=
  if tree.nTransactions = 0 then (0, [], [])
  else if tree.nTransactions.toNat > MAX_BLOCK_SIZE / 60 then (0, [], [])
  else if tree.vHash.length > tree.nTransactions.toNat then (0, [], [])
  else if tree.vBits.length < tree.vHash.length then (0, [], [])
  else
    let (hashMerkleRoot, s) := traverseAndExtract hashes tree (treeHeight tree.nTransactions) 0
      ⟨0, 0, [], [], tree.fBad⟩
    if s.fBad then (0, s.vMatch, s.vnIndex)
    -- all bits were used, except for the padding
    else if (s.nBitsUsed + 7) / 8 ≠ (tree.vBits.length + 7) / 8 then (0, s.vMatch, s.vnIndex)
    else if s.nHashUsed ≠ tree.vHash.length then (0, s.vMatch, s.vnIndex)
    else (hashMerkleRoot, s.vMatch, s.vnIndex)

/-! ## The shape of the tree -/

section Shape

variable {nTransactions : UInt32} {height : Nat}

/-- A node is there if a leaf under it is. -/
lemma lt_calcTreeWidth_iff (hn : nTransactions.toNat ≤ 2 ^ 31) (hheight : height ≤ 31) (pos : Nat) :
    pos < calcTreeWidth nTransactions height ↔ pos * 2 ^ height < nTransactions.toNat := by
  have hpow : 2 ^ height ≤ 2 ^ 31 := Nat.pow_le_pow_right (by norm_num) hheight
  have hpos : 0 < 2 ^ height := by positivity
  have hmod : (nTransactions.toNat + 2 ^ height - 1) % 2 ^ 32 =
      nTransactions.toNat + 2 ^ height - 1 := mod_eq_of_lt (by omega)
  have hnext : (pos + 1) * 2 ^ height = pos * 2 ^ height + 2 ^ height := by ring
  rw [calcTreeWidth, hmod, ← succ_le_iff, le_div_iff_mul_le hpos, succ_eq_add_one,
    hnext]
  omega

/-- A node over a leaf has a left child over a leaf, and a right one if there is a leaf. -/
lemma children_cover {vTxid : List Uint256} {pos : Nat}
    (hlen : nTransactions.toNat = vTxid.length) (hn : vTxid.length ≤ 2 ^ 31) (hheight : height ≤ 31)
    (hpos : pos * 2 ^ (height + 1) < vTxid.length) : pos * 2 * 2 ^ height < vTxid.length ∧
      (pos * 2 + 1 < calcTreeWidth nTransactions height ↔
        (pos * 2 + 1) * 2 ^ height < vTxid.length) :=
  ⟨by rwa [mul_assoc, ← pow_succ'], hlen ▸ lt_calcTreeWidth_iff (hlen ▸ hn) hheight _⟩

lemma heightLoop_eq (hn : nTransactions.toNat ≤ 2 ^ 31) {turns nHeight : Nat}
    (hle : nHeight ≤ Nat.clog 2 nTransactions.toNat)
    (hturns : Nat.clog 2 nTransactions.toNat ≤ nHeight + turns) :
    heightLoop nTransactions turns nHeight = Nat.clog 2 nTransactions.toNat := by
  have hclog : Nat.clog 2 nTransactions.toNat ≤ 31 := clog_le_of_le_pow hn
  induction turns generalizing nHeight with
  | zero => exact le_antisymm hle hturns
  | succ turns ih =>
    have hmore : 1 < calcTreeWidth nTransactions nHeight ↔
        nHeight < Nat.clog 2 nTransactions.toNat := by
      rw [lt_calcTreeWidth_iff hn (hle.trans hclog), one_mul,
        lt_clog_iff_pow_lt (by norm_num)]
    rw [heightLoop]
    split_ifs with hlt
    · exact ih (hmore.mp hlt) (by omega)
    · exact le_antisymm hle (not_lt.mp (hmore.not.mp hlt))

lemma treeHeight_eq (hn : nTransactions.toNat ≤ 2 ^ 31) :
    treeHeight nTransactions = Nat.clog 2 nTransactions.toNat :=
  heightLoop_eq hn (zero_le _) ((clog_le_of_le_pow hn).trans (by norm_num))

end Shape

/-! ## What is reported is in the block -/

def combined (hashes : Hashes) (tree : CPartialMerkleTree) :
    Nat → Nat → Extraction → List (Uint256 × Uint256)
  | 0, _, _ => []
  | height + 1, pos, s =>
    if tree.vBits[s.nBitsUsed]? = some true then
      let s := { s with nBitsUsed := s.nBitsUsed + 1 }
      let left := traverseAndExtract hashes tree height (pos * 2) s
      if pos * 2 + 1 < calcTreeWidth tree.nTransactions height then
        let right := traverseAndExtract hashes tree height (pos * 2 + 1) left.2
        (left.1, right.1) ::
          (combined hashes tree height (pos * 2) s ++
            combined hashes tree height (pos * 2 + 1) left.2)
      else (left.1, left.1) :: combined hashes tree height (pos * 2) s
    else []

/-- Different pairs of the two lists have different hashes. -/
def NoCollision (hashes : Hashes) (ps qs : List (Uint256 × Uint256)) : Prop :=
  ∀ p ∈ ps, ∀ q ∈ qs, hashPair hashes p.1 p.2 = hashPair hashes q.1 q.2 → p = q

instance (hashes : Hashes) (ps qs : List (Uint256 × Uint256)) :
    Decidable (NoCollision hashes ps qs) :=
  @List.decidableBAll _ _ (fun _ => @List.decidableBAll _ _ (fun _ => inferInstance) qs) ps

def treePairs (hashes : Hashes) (vTxid : List Uint256) : List (Uint256 × Uint256) :=
  pairs (hashPair hashes) (Nat.clog 2 vTxid.length) vTxid

structure Reported (vTxid : List Uint256) (s : Extraction) : Prop where
  length_eq : s.vMatch.length = s.vnIndex.length
  getElem_eq : ∀ p ∈ s.vMatch.zip s.vnIndex, vTxid[p.2]? = some p.1

section Sound

variable {hashes : Hashes} {tree : CPartialMerkleTree} {vTxid : List Uint256} {s : Extraction}

lemma Reported.used (h : Reported vTxid s) (nBits nHash : Nat) (bad : Bool) :
    Reported vTxid ⟨nBits, nHash, s.vMatch, s.vnIndex, bad⟩ :=
  ⟨h.length_eq, h.getElem_eq⟩

lemma Reported.useHash {matched : Bool} {pos : Nat} (h : Reported vTxid s)
    (hmatched : matched = true → vTxid[pos]? = some (tree.useHash matched pos s).1) :
    Reported vTxid (tree.useHash matched pos s).2 := by
  unfold CPartialMerkleTree.useHash at hmatched ⊢
  cases hhash : tree.vHash[s.nHashUsed]? with
  | none => exact h.used _ _ _
  | some hash =>
    cases matched with
    | false => exact h.used _ _ _
    | true =>
      have hpos : vTxid[pos]? = some hash := by simpa [hhash] using hmatched
      refine ⟨by simp [h.length_eq], ?_⟩
      intro p hp
      simp only [zip_append h.length_eq, mem_append, zip_cons_cons, zip_nil_left,
        mem_singleton, if_true] at hp
      rcases hp with hp | rfl
      · exact h.getElem_eq p hp
      · exact hpos

/-- A walk that gives the hash of a node has found only leaves under that node. The induction goes
down with the hash: as the walk combined a pair to the hash of the node and there is no collision,
it combined the hashes of the node's children. -/
lemma traverseAndExtract_sound (hlen : tree.nTransactions.toNat = vTxid.length)
    (hn : vTxid.length ≤ 2 ^ 31) {height pos : Nat} (hheight : height ≤ Nat.clog 2 vTxid.length)
    (hpos : pos * 2 ^ height < vTxid.length)
    (hno : NoCollision hashes (treePairs hashes vTxid) (combined hashes tree height pos s))
    (heq : (traverseAndExtract hashes tree height pos s).1 =
      root (hashPair hashes) height (segment vTxid height pos)) (h : Reported vTxid s) :
    Reported vTxid (traverseAndExtract hashes tree height pos s).2 := by
  induction height generalizing pos s with
  | zero =>
    rw [traverseAndExtract] at heq ⊢
    cases hbit : tree.vBits[s.nBitsUsed]? with
    | none => exact h.used _ _ _
    | some fParentOfMatch =>
      rw [hbit] at heq
      rw [pow_zero, mul_one] at hpos
      refine (h.used _ _ _).useHash fun _ => ?_
      simp only [heq, segment_zero hpos, root, headD_cons, getElem?_eq_getElem hpos]
  | succ height ih =>
    have hclog : Nat.clog 2 vTxid.length ≤ 31 := clog_le_of_le_pow hn
    obtain ⟨hleft, hwidth⟩ := children_cover hlen hn (by omega) hpos
    have hsub := pairs_segment_subset_top (hashPair hashes)
      (le_pow_clog (by norm_num) vTxid.length) hheight hpos
    rw [traverseAndExtract] at heq ⊢
    rw [combined] at hno
    cases hbit : tree.vBits[s.nBitsUsed]? with
    | none => exact h.used _ _ _
    | some fParentOfMatch =>
      cases fParentOfMatch with
      | false => exact (h.used _ _ _).useHash (by simp)
      | true =>
        simp only [hbit, if_true, hwidth] at heq hno ⊢
        split_ifs at heq hno ⊢ with hright
        · rw [root_segment_of_lt _ hright] at heq
          have hchildren := hno _ (hsub (mem_pairs_segment_of_lt _ hright)) _ mem_cons_self
            heq.symm
          obtain ⟨hl, hr⟩ := Prod.mk.inj hchildren
          have hafter := ih (by omega) hleft
            (fun p hp q hq => hno p hp q (by simp [hq])) hl.symm (h.used _ _ _)
          have hboth := ih (by omega) hright
            (fun p hp q hq => hno p hp q (by simp [hq])) hr.symm hafter
          exact hboth.used _ _ _
        · rw [root_segment_of_le _ (not_lt.mp hright)] at heq
          have hchildren := hno _ (hsub (mem_pairs_segment_of_le _ (not_lt.mp hright))) _
            mem_cons_self heq.symm
          exact ih (by omega) hleft (fun p hp q hq => hno p hp q (by simp [hq]))
            (Prod.mk.inj hchildren).1.symm (h.used _ _ _)

end Sound

/-! ## What was matched is found -/

section Matches

variable (nTransactions : UInt32) (vMatch : List Bool)

lemma matchesBelow_succ (height pos : Nat) :
    matchesBelow nTransactions vMatch (height + 1) pos =
      matchesBelow nTransactions vMatch height (pos * 2) ++
        matchesBelow nTransactions vMatch height (pos * 2 + 1) := by
  have hstart : pos * 2 ^ (height + 1) = pos * 2 * 2 ^ height := by ring
  have hnext : (pos * 2 + 1) * 2 ^ height = pos * 2 * 2 ^ height + 2 ^ height := by ring
  have hdouble : 2 ^ (height + 1) = 2 ^ height + 2 ^ height := by ring
  rw [matchesBelow, matchesBelow, matchesBelow, hstart, hnext, hdouble, ← range'_append_1,
    filter_append]

end Matches

section

variable (vTxid : List Uint256) (s : Extraction)

/-- The walk went over some bits and hashes and found the transactions at some positions. -/
def Extraction.advance (nBits nHash : Nat) (found : List Nat) : Extraction where
  nBitsUsed := s.nBitsUsed + nBits
  nHashUsed := s.nHashUsed + nHash
  vMatch := s.vMatch ++ found.map (vTxid.getD · 0)
  vnIndex := s.vnIndex ++ found
  fBad := s.fBad

lemma Extraction.advance_advance (b b' h h' : Nat) (found found' : List Nat) :
    (s.advance vTxid b h found).advance vTxid b' h' found' =
      s.advance vTxid (b + b') (h + h') (found ++ found') := by
  simp [advance, add_assoc]

/-- The bit of a node goes before the bits of the nodes below. -/
lemma Extraction.advance_bit (b h : Nat) (found : List Nat) :
    { s with nBitsUsed := s.nBitsUsed + 1 }.advance vTxid b h found =
      s.advance vTxid (b + 1) h found := by
  simp [advance, add_right_comm, add_assoc]

end

section Complete

variable {hashes : Hashes} {tree : CPartialMerkleTree} {vTxid : List Uint256} {vMatch : List Bool}
variable {height pos : Nat} {s : Extraction} {α : Type}

lemma calcHash_eq_root (hashes : Hashes) (hlen : tree.nTransactions.toNat = vTxid.length)
    (hn : vTxid.length ≤ 2 ^ 31) (hheight : height ≤ 31) (hpos : pos * 2 ^ height < vTxid.length) :
    calcHash hashes tree.nTransactions vTxid height pos =
      root (hashPair hashes) height (segment vTxid height pos) := by
  induction height generalizing pos with
  | zero =>
    rw [pow_zero, mul_one] at hpos
    simp [calcHash, segment_zero hpos, root, hpos]
  | succ height ih =>
    obtain ⟨hleft, hwidth⟩ := children_cover hlen hn (by omega) hpos
    simp only [calcHash, hwidth]
    split_ifs with hright
    · rw [root_segment_of_lt _ hright, ih (by omega) hleft, ih (by omega) hright]
    · rw [root_segment_of_le _ (not_lt.mp hright), ih (by omega) hleft]

lemma getElem?_of_drop_eq_cons {l rest : List α} {i : Nat} {a : α}
    (h : l.drop i = a :: rest) : l[i]? = some a ∧ l.drop (i + 1) = rest := by
  rw [← head?_drop, ← tail_drop, h]
  exact ⟨rfl, rfl⟩

lemma drop_of_drop_eq_append {l l' rest : List α} {i : Nat}
    (h : l.drop i = l' ++ rest) : l.drop (i + l'.length) = rest := by
  rw [← drop_drop, h, drop_left]

lemma useHash_of_drop_eq_cons {matched : Bool} {hash : Uint256}
    {rest : List Uint256} (hhash : tree.vHash.drop s.nHashUsed = hash :: rest)
    (hmatched : matched = true → vTxid.getD pos 0 = hash) :
    tree.useHash matched pos s =
      (hash, s.advance vTxid 0 1 (if matched then [pos] else [])) := by
  rw [useHash, (getElem?_of_drop_eq_cons hhash).1]
  cases matched with
  | false => simp [Extraction.advance]
  | true =>
    simp_all [Extraction.advance]

/-- The walk over what was built for a node gives the hash of the node and finds the transactions
matched below it. -/
lemma traverseAndExtract_build (hlen : tree.nTransactions.toNat = vTxid.length)
    (hn : vTxid.length ≤ 2 ^ 31) (hnodup : vTxid.Nodup)
    (hno : NoCollision hashes (treePairs hashes vTxid) (treePairs hashes vTxid))
    (hheight : height ≤ Nat.clog 2 vTxid.length) (hpos : pos * 2 ^ height < vTxid.length)
    {built : List Bool × List Uint256}
    (hbuilt : built = traverseAndBuild hashes tree.nTransactions vTxid vMatch height pos)
    {restBits : List Bool} {restHash : List Uint256}
    (hbits : tree.vBits.drop s.nBitsUsed = built.1 ++ restBits)
    (hhash : tree.vHash.drop s.nHashUsed = built.2 ++ restHash) :
    traverseAndExtract hashes tree height pos s =
      (root (hashPair hashes) height (segment vTxid height pos),
        s.advance vTxid built.1.length built.2.length
          (matchesBelow tree.nTransactions vMatch height pos)) := by
  have hclog : Nat.clog 2 vTxid.length ≤ 31 := clog_le_of_le_pow hn
  induction height generalizing pos s built restBits restHash with
  | zero =>
    have hcalc := calcHash_eq_root hashes hlen hn (zero_le 31) hpos
    rw [traverseAndBuild, hcalc] at hbuilt
    subst hbuilt
    have hbelow : matchesBelow tree.nTransactions vMatch 0 pos =
        if parentOfMatch tree.nTransactions vMatch 0 pos then [pos] else [] := by
      simp [matchesBelow, parentOfMatch, filter_cons]
    rw [traverseAndExtract, (getElem?_of_drop_eq_cons hbits).1, hbelow]
    exact (useHash_of_drop_eq_cons (s := { s with nBitsUsed := s.nBitsUsed + 1 }) hhash
      fun _ => hcalc)
  | succ height ih =>
    obtain ⟨hleft, hwidth⟩ := children_cover hlen hn (by omega) hpos
    cases hparent : parentOfMatch tree.nTransactions vMatch (height + 1) pos with
    | false =>
      rw [traverseAndBuild, hparent, calcHash_eq_root hashes hlen hn (by omega) hpos] at hbuilt
      subst hbuilt
      rw [parentOfMatch, any_eq_false] at hparent
      rw [traverseAndExtract, (getElem?_of_drop_eq_cons hbits).1, matchesBelow,
        filter_eq_nil_iff.mpr hparent]
      exact (useHash_of_drop_eq_cons (s := { s with nBitsUsed := s.nBitsUsed + 1 }) hhash
        (fun h => by simp at h))
    | true =>
      rw [traverseAndExtract, matchesBelow_succ]
      rw [traverseAndBuild, hparent] at hbuilt
      simp only [if_true, hwidth] at hbuilt ⊢
      split_ifs at hbuilt ⊢ with hright
      · subst hbuilt
        rw [cons_append, append_assoc] at hbits
        rw [append_assoc] at hhash
        obtain ⟨hbit, hrest⟩ := getElem?_of_drop_eq_cons hbits
        have hl := ih (by omega) hleft rfl (s := { s with nBitsUsed := s.nBitsUsed + 1 })
          hrest hhash
        rw [Extraction.advance_bit] at hl
        have hrest' := drop_of_drop_eq_append hrest
        rw [add_assoc, add_comm 1] at hrest'
        have hr := ih (by omega) hright rfl
          (s := s.advance vTxid _ _ (matchesBelow tree.nTransactions vMatch height (pos * 2)))
          hrest' (drop_of_drop_eq_append hhash)
        have hne := root_segment_ne (hashPair hashes) (le_pow_clog (by norm_num) vTxid.length)
          hnodup hno hheight hright
        simp only [hbit, if_true, hl, hr, beq_eq_false_iff_ne.mpr hne.symm, Bool.or_false,
          Extraction.advance_advance, root_segment_of_lt _ hright, length_cons,
          length_append, add_right_comm _ 1]
      · subst hbuilt
        obtain ⟨hbit, hrest⟩ := getElem?_of_drop_eq_cons hbits
        have hl := ih (by omega) hleft rfl (s := { s with nBitsUsed := s.nBitsUsed + 1 })
          hrest hhash
        have hnone : matchesBelow tree.nTransactions vMatch height (pos * 2 + 1) = [] := by
          rw [matchesBelow, filter_eq_nil_iff]
          intro p hp
          have hge := (mem_range'_1.mp hp).1
          simp
          omega
        simp only [hbit, if_true, hl, Extraction.advance_bit, length_cons, hnone,
          append_nil, root_segment_of_le _ (not_lt.mp hright)]

lemma length_traverseAndBuild (hashes : Hashes) (vMatch : List Bool)
    (hlen : tree.nTransactions.toNat = vTxid.length)
    (hn : vTxid.length ≤ 2 ^ 31) (hheight : height ≤ 31) (hpos : pos * 2 ^ height < vTxid.length) :
    let built := traverseAndBuild hashes tree.nTransactions vTxid vMatch height pos
    built.2.length ≤ (segment vTxid height pos).length ∧ built.2.length ≤ built.1.length ∧
      built.1.length < 2 ^ (height + 1) := by
  induction height generalizing pos with
  | zero =>
    rw [pow_zero, mul_one] at hpos
    simp [traverseAndBuild, segment_zero hpos]
  | succ height ih =>
    have hpow : 2 ^ (height + 1 + 1) = 2 ^ (height + 1) + 2 ^ (height + 1) := by ring
    have hsmall : 1 < 2 ^ (height + 1) := Nat.one_lt_two_pow (by omega)
    obtain ⟨hleft, hwidth⟩ := children_cover hlen hn (by omega) hpos
    obtain ⟨hl₁, hl₂, hl₃⟩ := ih (by omega) hleft
    simp only [traverseAndBuild, hwidth]
    split_ifs with hparent hright
    · obtain ⟨hr₁, hr₂, hr₃⟩ := ih (by omega) hright
      rw [segment_succ]
      simp only [length_append, length_cons]
      omega
    · rw [segment_succ_of_le (not_lt.mp hright)]
      simp only [length_cons]
      omega
    · rw [length_segment]
      simp only [length_singleton]
      omega

end Complete

/-! ## The flag bits on the wire -/

lemma getD_packBits {vBits : List Bool} {i j : Nat} (hi : i < (vBits.length + 7) / 8)
    (hj : j < 8) : ((packBits vBits).getD i 0).toNat.testBit j = vBits.getD (8 * i + j) false := by
  have hlt := ofBits_lt_two_pow fun j : Fin 8 => vBits.getD (8 * i + j) false
  rw [packBits, getD_eq_getElem?_getD, getElem?_map, getElem?_range hi,
    Option.map_some, Option.getD_some, UInt8.toNat_ofNat', mod_eq_of_lt hlt,
    testBit_ofBits_lt _ _ hj]

/-- What is read back is what was written, up to the padding to a whole byte. -/
lemma unpackBits_packBits (vBits : List Bool) : unpackBits (packBits vBits) =
    vBits ++ List.replicate ((vBits.length + 7) / 8 * 8 - vBits.length) false := by
  have hlen : (packBits vBits).length = (vBits.length + 7) / 8 := by simp [packBits]
  apply ext_getElem
  · simp only [unpackBits, length_map, length_range, hlen, length_append,
      length_replicate]
    omega
  · intro p hp hp'
    simp only [unpackBits, length_map, length_range, hlen] at hp
    simp only [unpackBits, getElem_map, getElem_range]
    rw [getD_packBits (by omega) (by omega), div_add_mod, getElem_append]
    split_ifs with hin
    · simp [hin]
    · simp [not_lt.mp hin]

def received (hashes : Hashes) (vTxid : List Uint256) (vMatch : List Bool) : CPartialMerkleTree :=
  let tree := ofMatches hashes vTxid vMatch
  { tree with vBits := unpackBits (packBits tree.vBits) }

section Received

variable {hashes : Hashes} {vTxid : List Uint256} {vMatch : List Bool}

lemma toNat_length (hn : vTxid.length ≤ 2 ^ 20) :
    (UInt32.ofNat vTxid.length).toNat = vTxid.length := by
  exact mod_eq_of_lt (by omega)

lemma treeHeight_length (hn : vTxid.length ≤ 2 ^ 20) :
    treeHeight (UInt32.ofNat vTxid.length) = Nat.clog 2 vTxid.length := by
  rw [treeHeight_eq (by rw [toNat_length hn]; omega), toNat_length hn]

lemma length_ofMatches (hashes : Hashes) (vMatch : List Bool) (hne : vTxid ≠ [])
    (hn : vTxid.length ≤ 2 ^ 20) : let tree := ofMatches hashes vTxid vMatch
    tree.vHash.length ≤ vTxid.length ∧ tree.vHash.length ≤ tree.vBits.length ∧
      tree.vBits.length < 2 ^ 21 := by
  have hpos : 0 < vTxid.length := length_pos_iff.mpr hne
  have hclog : Nat.clog 2 vTxid.length ≤ 20 := clog_le_of_le_pow hn
  have hpow : 2 ^ (Nat.clog 2 vTxid.length + 1) ≤ 2 ^ 21 :=
    Nat.pow_le_pow_right (by norm_num) (by omega)
  have hlen : (ofMatches hashes vTxid vMatch).nTransactions.toNat = vTxid.length :=
    toNat_length hn
  have hheight := treeHeight_length hn
  obtain ⟨h₁, h₂, h₃⟩ := length_traverseAndBuild hashes vMatch hlen (by omega)
    (by omega : Nat.clog 2 vTxid.length ≤ 31) (by omega : 0 * _ < vTxid.length)
  rw [segment_top (le_pow_clog (by norm_num) _), ← hheight] at h₁
  rw [← hheight] at h₂ h₃ hpow
  exact ⟨h₁, h₂, h₃.trans_le hpow⟩

lemma unserialize_reads_received (hne : vTxid ≠ []) (hn : vTxid.length ≤ 2 ^ 20) :
    Reads unserialize (ofMatches hashes vTxid vMatch).serialize (received hashes vTxid vMatch) := by
  obtain ⟨h₁, h₂, h₃⟩ := length_ofMatches hashes vMatch hne hn
  have hhash : Reads (readVector readUInt256)
      (writeVector writeUInt256 (ofMatches hashes vTxid vMatch).vHash)
      (ofMatches hashes vTxid vMatch).vHash := by
    have h := readVector_reads (f := id) (v := (ofMatches hashes vTxid vMatch).vHash)
      (by unfold MAX_SIZE; omega) fun x _ => readUInt256_reads x
    rwa [map_id] at h
  have hbytes : (packBits (ofMatches hashes vTxid vMatch).vBits).length ≤ MAX_SIZE := by
    simp only [packBits, length_map, length_range, MAX_SIZE]
    omega
  exact (readUInt32_reads _).bind (hhash.bind ((readByteVector_reads hbytes).bind_nil
    (Reads.pure _)))

end Received

def matchedPositions (vMatch : List Bool) : List Nat :=
  (List.range vMatch.length).filter fun p => vMatch.getD p false

lemma matchesBelow_top {nTransactions : UInt32} {vMatch : List Bool} {height : Nat}
    (hlen : nTransactions.toNat = vMatch.length) (hle : vMatch.length ≤ 2 ^ height) :
    matchesBelow nTransactions vMatch height 0 = matchedPositions vMatch := by
  obtain ⟨more, hmore⟩ := Nat.exists_eq_add_of_le hle
  rw [matchesBelow, Nat.zero_mul, ← range_eq_range', hmore, range_add,
    filter_append, matchedPositions]
  have hbeyond : ((List.range more).map (vMatch.length + ·)).filter
      (fun p => decide (p < nTransactions.toNat) && vMatch.getD p false) = [] := by
    simp [filter_eq_nil_iff, hlen]
  rw [hbeyond, append_nil]
  apply filter_congr
  intro p hp
  simp [hlen, mem_range.mp hp]

/-- What the tree built from a list and a mask gives after a transfer. -/
lemma extractMatches_received {hashes : Hashes} {vTxid : List Uint256} {vMatch : List Bool}
    (hne : vTxid ≠ []) (hn : vTxid.length ≤ MAX_BLOCK_SIZE / 60) (hnodup : vTxid.Nodup)
    (hno : NoCollision hashes (treePairs hashes vTxid) (treePairs hashes vTxid))
    (hmask : vMatch.length = vTxid.length) :
    (received hashes vTxid vMatch).extractMatches hashes =
      ((computeMerkleRoot hashes vTxid).1, (matchedPositions vMatch).map (vTxid.getD · 0),
        matchedPositions vMatch) := by
  have hn' : vTxid.length ≤ 2 ^ 20 := hn.trans (by norm_num [MAX_BLOCK_SIZE])
  have hpos : 0 < vTxid.length := length_pos_iff.mpr hne
  have hlen : (received hashes vTxid vMatch).nTransactions.toNat = vTxid.length :=
    toNat_length hn'
  have hzero : (received hashes vTxid vMatch).nTransactions ≠ 0 := by
    intro h
    rw [h] at hlen
    exact hpos.ne hlen
  obtain ⟨h₁, h₂, -⟩ := length_ofMatches hashes vMatch hne hn'
  have hbits := unpackBits_packBits (ofMatches hashes vTxid vMatch).vBits
  have hheight : treeHeight (received hashes vTxid vMatch).nTransactions =
      Nat.clog 2 vTxid.length := treeHeight_length hn'
  have hbuilt : ((ofMatches hashes vTxid vMatch).vBits, (ofMatches hashes vTxid vMatch).vHash) =
      traverseAndBuild hashes (received hashes vTxid vMatch).nTransactions vTxid vMatch
        (Nat.clog 2 vTxid.length) 0 := by
    rw [← hheight]
    rfl
  have hwalk := traverseAndExtract_build hlen (by omega) hnodup hno le_rfl
    (by omega : 0 * _ < _) hbuilt (s := ⟨0, 0, [], [], false⟩) hbits (append_nil _).symm
  have hle := le_pow_clog (b := 2) (by norm_num) vTxid.length
  rw [segment_top hle, matchesBelow_top (hlen.trans hmask.symm) (hmask ▸ hle)] at hwalk
  have hsizes : (received hashes vTxid vMatch).vHash.length ≤ vTxid.length ∧
      (received hashes vTxid vMatch).vHash.length ≤ (received hashes vTxid vMatch).vBits.length ∧
      ((ofMatches hashes vTxid vMatch).vBits.length + 7) / 8 =
        ((received hashes vTxid vMatch).vBits.length + 7) / 8 := by
    simp only [received, hbits, length_append, length_replicate]
    omega
  have hbad : (received hashes vTxid vMatch).fBad = false := rfl
  simp only [extractMatches, if_neg hzero, hlen, if_neg (not_lt.mpr hn),
    if_neg (not_lt.mpr hsizes.1), if_neg (not_lt.mpr hsizes.2.1), hheight, hbad, hwalk,
    Extraction.advance, zero_add, hsizes.2.2, nil_append, computeMerkleRoot_eq_root hne,
    Bool.false_eq_true, if_false, ne_eq, not_true_eq_false]
  exact if_neg (not_not.mpr rfl)

/-- A merkle root that is not 0 was computed by the walk. -/
lemma extractMatches_of_ne_zero {hashes : Hashes} {tree : CPartialMerkleTree}
    (h : (tree.extractMatches hashes).1 ≠ 0) :
    tree.nTransactions.toNat ≤ MAX_BLOCK_SIZE / 60 ∧
      tree.extractMatches hashes =
        let walk := traverseAndExtract hashes tree (treeHeight tree.nTransactions) 0
          ⟨0, 0, [], [], tree.fBad⟩
        (walk.1, walk.2.vMatch, walk.2.vnIndex) := by
  unfold extractMatches at h ⊢
  split_ifs at h ⊢ with h₁ h₂ h₃ h₄ <;> try contradiction
  refine ⟨not_lt.mp h₂, ?_⟩
  dsimp only at h ⊢
  split_ifs at h ⊢ <;> first | contradiction | rfl

def combinedPairs (hashes : Hashes) (tree : CPartialMerkleTree) : List (Uint256 × Uint256) :=
  combined hashes tree (treeHeight tree.nTransactions) 0 ⟨0, 0, [], [], tree.fBad⟩

/-- A tree with the number of transactions of a list and its merkle root reports transactions of
the list. -/
lemma extractMatches_sound {hashes : Hashes} {tree : CPartialMerkleTree} {vTxid : List Uint256}
    (hne : vTxid ≠ []) (hroot : (computeMerkleRoot hashes vTxid).1 ≠ 0)
    (hlen : tree.nTransactions.toNat = vTxid.length)
    (hno : NoCollision hashes (treePairs hashes vTxid) (tree.combinedPairs hashes))
    (heq : (tree.extractMatches hashes).1 = (computeMerkleRoot hashes vTxid).1) :
    (tree.extractMatches hashes).2.1.length = (tree.extractMatches hashes).2.2.length ∧
      ∀ p ∈ (tree.extractMatches hashes).2.1.zip (tree.extractMatches hashes).2.2,
        vTxid[p.2]? = some p.1 := by
  obtain ⟨hn, hwalk⟩ := extractMatches_of_ne_zero (heq ▸ hroot)
  have hn' : vTxid.length ≤ 2 ^ 31 := by
    rw [← hlen]
    exact hn.trans (by norm_num [MAX_BLOCK_SIZE])
  have hpos : 0 < vTxid.length := length_pos_iff.mpr hne
  have hheight : treeHeight tree.nTransactions = Nat.clog 2 vTxid.length := by
    rw [treeHeight_eq (hlen ▸ hn'), hlen]
  rw [hwalk, computeMerkleRoot_eq_root hne] at heq
  rw [combinedPairs, hheight] at hno
  rw [hheight] at hwalk heq
  have hreported := traverseAndExtract_sound hlen hn' le_rfl (by omega : 0 * _ < _) hno
    (by rw [segment_top (le_pow_clog (by norm_num) _)]; exact heq) ⟨rfl, by simp⟩
  rw [hwalk]
  exact ⟨hreported.length_eq, hreported.getElem_eq⟩

/-- Proofs of inclusion are complete and sound. A list of different transactions that a block can
hold, with any mask, is proved by the tree built from it, if its own hash tree has no collision; and
a tree made by anyone that has the list's length and merkle root proves nothing else, if what it
combines does not collide with the list's hash tree and the merkle root is not the value that stands
for failure. -/
theorem extractMatches_complete_and_sound (hashes : Hashes) (vTxid : List Uint256)
    (hne : vTxid ≠ []) :
    (vTxid.length ≤ MAX_BLOCK_SIZE / 60 → vTxid.Nodup →
      NoCollision hashes (treePairs hashes vTxid) (treePairs hashes vTxid) →
      ∀ vMatch : List Bool, vMatch.length = vTxid.length →
        ∃ tree, Reads unserialize (ofMatches hashes vTxid vMatch).serialize tree ∧
          tree.extractMatches hashes = ((computeMerkleRoot hashes vTxid).1,
            (matchedPositions vMatch).map (vTxid.getD · 0), matchedPositions vMatch)) ∧
    ((computeMerkleRoot hashes vTxid).1 ≠ 0 →
      ∀ tree : CPartialMerkleTree, tree.nTransactions.toNat = vTxid.length →
        NoCollision hashes (treePairs hashes vTxid) (tree.combinedPairs hashes) →
        (tree.extractMatches hashes).1 = (computeMerkleRoot hashes vTxid).1 →
        (tree.extractMatches hashes).2.1.length = (tree.extractMatches hashes).2.2.length ∧
          ∀ p ∈ (tree.extractMatches hashes).2.1.zip (tree.extractMatches hashes).2.2,
            vTxid[p.2]? = some p.1) := by
  refine ⟨fun hn hnodup hno vMatch hmask => ?_, fun hroot tree hlen hno heq => ?_⟩
  · exact ⟨received hashes vTxid vMatch,
      unserialize_reads_received hne (hn.trans (by norm_num [MAX_BLOCK_SIZE])),
      extractMatches_received hne hn hnodup hno hmask⟩
  · exact extractMatches_sound hne hroot hlen hno heq

def weightedSum : Hashes where
  hash256 bytes := BitVec.ofNat 256 (bytes.foldl (fun h b => 3 * h + b.toNat + 1) 0)
  scrypt _ := 0

/-- Three transactions of which the first and the last are matched. -/
theorem extractMatches_three : let tree := ofMatches weightedSum [11, 12, 13] [true, false, true]
    (∃ read, Reads unserialize tree.serialize read ∧ read.extractMatches weightedSum =
      ((computeMerkleRoot weightedSum [11, 12, 13]).1, [11, 13], [0, 2])) ∧
    ∀ p ∈ (tree.extractMatches weightedSum).2.1.zip (tree.extractMatches weightedSum).2.2,
      ([11, 12, 13] : List Uint256)[p.2]? = some p.1 := by
  have hpairs : treePairs weightedSum [11, 12, 13] =
      pairs (hashPair weightedSum) 2 [11, 12, 13] := rfl
  obtain ⟨hcomplete, hsound⟩ := extractMatches_complete_and_sound weightedSum [11, 12, 13] (by simp)
  refine ⟨hcomplete (by decide) (by decide) ?_ [true, false, true] rfl, (hsound ?_ _ rfl ?_ ?_).2⟩
  · rw [hpairs]
    decide +kernel
  · decide +kernel
  · rw [hpairs]
    decide +kernel
  · decide +kernel

def constantHash : Hashes where
  hash256 _ := 7
  scrypt _ := 0

def tooManyTxids : List Uint256 :=
  (List.range (MAX_BLOCK_SIZE / 60 + 1)).map (BitVec.ofNat 256)

lemma nodup_tooManyTxids : tooManyTxids.Nodup := by
  refine List.Nodup.map_on (fun i hi j hj heq => ?_) nodup_range
  have hbound : MAX_BLOCK_SIZE / 60 + 1 ≤ 2 ^ 17 := by norm_num [MAX_BLOCK_SIZE]
  rw [mem_range] at hi hj
  have htoNat := congrArg BitVec.toNat heq
  rwa [BitVec.toNat_ofNat, BitVec.toNat_ofNat, mod_eq_of_lt (by omega),
    mod_eq_of_lt (by omega)] at htoNat

/-- Where the proofs end. A tree of more transactions than a block of minimal transactions holds is
refused; with a hash that combines all pairs to one value different siblings look like a repeated
one; and if the merkle root is 0, a tree that was refused can still have reported a transaction. -/
theorem extractMatches_limits :
    (tooManyTxids.Nodup ∧ ∃ tree, Reads unserialize
        (ofMatches weightedSum tooManyTxids (tooManyTxids.map fun _ => true)).serialize tree ∧
      tree.extractMatches weightedSum = (0, [], [])) ∧
    ((computeMerkleRoot constantHash [1, 2, 3, 4]).1 = 7 ∧
      (received constantHash [1, 2, 3, 4] [true, true, true, true]).extractMatches constantHash =
        (0, [1, 2, 3, 4], [0, 1, 2, 3])) ∧
    ((computeMerkleRoot weightedSum [0]).1 = 0 ∧
      (⟨1, List.replicate 16 true, [5], false⟩ : CPartialMerkleTree).extractMatches weightedSum =
        (0, [5], [0])) := by
  have hlen : tooManyTxids.length = MAX_BLOCK_SIZE / 60 + 1 := by simp [tooManyTxids]
  have hbound : tooManyTxids.length ≤ 2 ^ 20 := by
    rw [hlen]
    norm_num [MAX_BLOCK_SIZE]
  have hne : tooManyTxids ≠ [] := length_pos_iff.mp (by omega)
  refine ⟨⟨nodup_tooManyTxids, _, unserialize_reads_received hne hbound, ?_⟩,
    ⟨by decide +kernel, by decide +kernel⟩, by decide +kernel, by decide +kernel⟩
  have hmany : (received weightedSum tooManyTxids
      (tooManyTxids.map fun _ => true)).nTransactions.toNat = MAX_BLOCK_SIZE / 60 + 1 :=
    (toNat_length hbound).trans hlen
  have hzero : (received weightedSum tooManyTxids
      (tooManyTxids.map fun _ => true)).nTransactions ≠ 0 := by
    intro h
    rw [h] at hmany
    exact absurd hmany (by simp)
  rw [extractMatches, if_neg hzero, if_pos (by omega)]

end CPartialMerkleTree

end Jumpcoin
