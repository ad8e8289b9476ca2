import Jumpcoin.Mempool.Pool

/-!
# The index of transaction hashes

`vTxHashes` is the pool as a vector, for the reconstruction of a block from short ids, which goes
through all hashes and reads the entries behind them. An entry stores its position in the vector,
and when it is removed the last iterator takes its place.

`clear` empties the pool but not the vector, so the iterators of a pool that was not empty dangle.
-/

namespace Jumpcoin

open BackIndex List

def CTxMemPoolEntry.ref (e : CTxMemPoolEntry) : Uint256 × Nat := (e.hash, e.node)

def CTxMemPoolEntry.place (e : CTxMemPoolEntry) : Uint256 × Nat × Nat :=
  (e.hash, e.node, e.vTxHashesIdx)

namespace CTxMemPool

/-- `vTxHashes` lists each entry exactly once, at the position it stores, and nothing else. -/
structure HashesExact (pool : CTxMemPool) : Prop where
  once : ∀ e ∈ pool.mapTx.entries, pool.vTxHashes.count e.ref = 1
  position : ∀ e ∈ pool.mapTx.entries, pool.vTxHashes[e.vTxHashesIdx]? = some e.ref
  live : ∀ p ∈ pool.vTxHashes, ∃ e ∈ pool.mapTx.entries, e.ref = p

/-! ## As a vector whose elements know their positions -/

def Live (pool : CTxMemPool) (p : Uint256 × Nat) : Prop :=
  ∃ e ∈ pool.mapTx.entries, e.ref = p

def position (pool : CTxMemPool) (p : Uint256 × Nat) : Nat :=
  ((pool.mapTx.find? p.1).map CTxMemPoolEntry.vTxHashesIdx).getD 0

variable {pool pool' : CTxMemPool}

lemma position_ref {e : CTxMemPoolEntry} (he : e ∈ pool.mapTx.entries) :
    pool.position e.ref = e.vTxHashesIdx := by
  have hfind : pool.mapTx.find? e.hash = some e := Table.find?_eq_some_iff.mpr ⟨he, rfl⟩
  simp [position, CTxMemPoolEntry.ref, hfind]

lemma hashesExact_iff : pool.HashesExact ↔ Indexed pool.vTxHashes pool.Live pool.position := by
  constructor
  · intro h i p
    constructor
    · intro hi
      obtain ⟨e, he, rfl⟩ := h.live p (mem_of_getElem? hi)
      refine ⟨⟨e, he, rfl⟩, ?_⟩
      rw [position_ref he]
      have hnodup : pool.vTxHashes.Nodup := by
        rw [nodup_iff_count_eq_one]
        intro q hq
        obtain ⟨e, he, rfl⟩ := h.live q hq
        exact h.once e he
      have hpos := h.position e he
      have hlt := (List.getElem?_eq_some_iff.mp hpos).1
      exact (getElem?_inj hlt hnodup).mp (hpos.trans hi.symm)
    · rintro ⟨⟨e, he, rfl⟩, rfl⟩
      rw [position_ref he]
      exact h.position e he
  · intro h
    refine ⟨fun e he => ?_, fun e he => ?_, fun p hp => h.mem_iff.mp hp⟩
    · exact count_eq_one_of_mem h.nodup (h.mem_iff.mpr ⟨e, he, rfl⟩)
    · have hpos := h.getElem?_pos ⟨e, he, rfl⟩
      rwa [position_ref he] at hpos

/-! ## The part of the pool that the index is about -/

def places (pool : CTxMemPool) : List (Uint256 × Nat × Nat) :=
  pool.mapTx.entries.map CTxMemPoolEntry.place

structure NodesFresh (pool : CTxMemPool) : Prop where
  nodup : (pool.places.map fun place => place.2.1).Nodup
  lt : ∀ place ∈ pool.places, place.2.1 < pool.nextNode

structure SameIndex (pool pool' : CTxMemPool) : Prop where
  places : pool'.places = pool.places
  vTxHashes : pool'.vTxHashes = pool.vTxHashes
  nextNode : pool'.nextNode = pool.nextNode

lemma SameIndex.refl (pool : CTxMemPool) : SameIndex pool pool := ⟨rfl, rfl, rfl⟩

lemma SameIndex.trans {pool'' : CTxMemPool} (h : SameIndex pool pool')
    (h' : SameIndex pool' pool'') : SameIndex pool pool'' :=
  ⟨h'.places.trans h.places, h'.vTxHashes.trans h.vTxHashes, h'.nextNode.trans h.nextNode⟩

lemma SameIndex.foldl {α : Type} {f : CTxMemPool → α → CTxMemPool}
    (hf : ∀ pool a, SameIndex pool (f pool a)) (l : List α) (pool : CTxMemPool) :
    SameIndex pool (l.foldl f pool) := by
  induction l generalizing pool with
  | nil => exact .refl pool
  | cons a l ih => exact (hf pool a).trans (ih (f pool a))

variable {f : CTxMemPoolEntry → CTxMemPoolEntry} {hf : ∀ e, (f e).hash = e.hash}

/-- Entries are modified, but not their nodes and positions. -/
lemma places_modify (hnode : ∀ e, (f e).node = e.node)
    (hidx : ∀ e, (f e).vTxHashesIdx = e.vTxHashesIdx) :
    { pool with mapTx := pool.mapTx.modify f hf }.places = pool.places := by
  simp only [places, Table.modify, map_map]
  exact map_congr_left fun e _ => by simp [CTxMemPoolEntry.place, hf, hnode, hidx]

lemma sameIndex_modifyEntries {set : List Uint256} {ok : CTxMemPoolEntry → Bool}
    (h : pool.modifyEntries set f hf ok = some pool') (hnode : ∀ e, (f e).node = e.node)
    (hidx : ∀ e, (f e).vTxHashesIdx = e.vTxHashesIdx) : SameIndex pool pool' := by
  rw [modifyEntries] at h
  split_ifs at h
  obtain rfl := Option.some.inj h
  refine ⟨places_modify (fun e => ?_) (fun e => ?_), rfl, rfl⟩
  · split_ifs
    exacts [hnode e, rfl]
  · split_ifs
    exacts [hidx e, rfl]

lemma sameIndex_applyDelta (pool : CTxMemPool) (hash : Uint256) :
    SameIndex pool (pool.applyDelta hash) := by
  unfold applyDelta
  split
  · exact .refl pool
  · split_ifs
    · exact .refl pool
    · refine ⟨places_modify (fun e => ?_) (fun e => ?_), rfl, rfl⟩ <;> split_ifs <;> rfl

lemma sameIndex_linkParents (pool : CTxMemPool) (tx : CTransaction) (hash : Uint256) :
    SameIndex pool (pool.linkParents tx hash) := by
  refine SameIndex.foldl (fun pool phash => ?_) _ pool
  split_ifs
  exacts [⟨rfl, rfl, rfl⟩, .refl pool]

variable {hash : Uint256} {entry : CTxMemPoolEntry} {setAncestors : List Uint256}

lemma sameIndex_updateAncestorsOf {add : Bool}
    (h : pool.updateAncestorsOf add hash setAncestors = some pool') : SameIndex pool pool' := by
  simp only [updateAncestorsOf, Option.bind_eq_bind, Option.bind_eq_some_iff] at h
  obtain ⟨parentIters, -, it, -, h⟩ := h
  have hlinks : SameIndex pool
      (parentIters.foldl (fun pool piter => pool.updateChild piter hash add) pool) := by
    refine SameIndex.foldl (fun _ _ => ?_) parentIters pool
    exact ⟨rfl, rfl, rfl⟩
  exact hlinks.trans
    (sameIndex_modifyEntries h (fun _ => rfl) fun _ => rfl)

lemma sameIndex_updateEntryForAncestors
    (h : pool.updateEntryForAncestors hash setAncestors = some pool') : SameIndex pool pool' := by
  simp only [updateEntryForAncestors, Option.bind_eq_bind, Option.bind_eq_some_iff] at h
  obtain ⟨ancestors, -, h⟩ := h
  exact sameIndex_modifyEntries h (fun _ => rfl) fun _ => rfl

/-- Adding an entry is inserting it and, after steps that do not concern the index, storing its
iterator. -/
lemma addUnchecked_eq_some (h : pool.addUnchecked entry setAncestors = some pool') :
    ∃ mid newit, SameIndex (pool.insertEntry entry) mid ∧ newit.hash = entry.hash ∧
      newit.place ∈ mid.places ∧ pool' = mid.pushHash newit := by
  simp only [addUnchecked, Option.bind_eq_bind, Option.bind_eq_some_iff, Option.some.injEq] at h
  obtain ⟨newit, hfind, pool₂, h₂, pool₃, h₃, rfl⟩ := h
  obtain ⟨hmem, hhash⟩ := Table.find?_eq_some_iff.mp hfind
  have hlinks : SameIndex (pool.insertEntry entry)
      ((pool.insertEntry entry).insertLinks entry.hash) := ⟨rfl, rfl, rfl⟩
  have hspends (pool : CTxMemPool) : SameIndex pool (pool.insertSpends newit.tx newit.hash) :=
    ⟨rfl, rfl, rfl⟩
  have hlater := (hspends _).trans ((sameIndex_linkParents _ _ _).trans
    ((sameIndex_updateAncestorsOf h₂).trans (sameIndex_updateEntryForAncestors h₃)))
  have htotal : SameIndex pool₃ { pool₃ with totalTxSize := pool₃.totalTxSize + entry.nTxSize } :=
    ⟨rfl, rfl, rfl⟩
  refine ⟨_, newit, hlinks.trans ((sameIndex_applyDelta _ _).trans (hlater.trans htotal)), hhash,
    ?_, rfl⟩
  show _ ∈ pool₃.places
  rw [hlater.places]
  exact mem_map_of_mem hmem

/-! ## What the operations do to it -/

variable {p : Uint256 × Nat}

lemma live_iff : pool.Live p ↔ ∃ i, (p.1, p.2, i) ∈ pool.places := by
  simp only [Live, places, CTxMemPoolEntry.ref, CTxMemPoolEntry.place, mem_map, Prod.ext_iff]
  constructor
  · rintro ⟨e, he, h⟩
    exact ⟨_, e, he, h.1, h.2, rfl⟩
  · rintro ⟨i, e, he, h₁, h₂, -⟩
    exact ⟨e, he, h₁, h₂⟩

variable {i : Nat}

lemma position_eq (h : (p.1, p.2, i) ∈ pool.places) : pool.position p = i := by
  obtain ⟨e, he, heq⟩ := mem_map.mp h
  obtain ⟨h₁, h₂, rfl⟩ : e.hash = p.1 ∧ e.node = p.2 ∧ e.vTxHashesIdx = i := by
    simpa [CTxMemPoolEntry.place] using heq
  have hp : p = e.ref := Prod.ext h₁.symm h₂.symm
  rw [hp, position_ref he]

variable {a b : Uint256 × Nat × Nat}

lemma place_eq_of_hash_eq (ha : a ∈ pool.places) (hb : b ∈ pool.places) (h : a.1 = b.1) :
    a = b := by
  obtain ⟨e, he, rfl⟩ := mem_map.mp ha
  obtain ⟨e', he', rfl⟩ := mem_map.mp hb
  rw [Table.eq_of_key_eq he he' h]

def tell (places : List (Uint256 × Nat × Nat)) (node idx : Nat) : List (Uint256 × Nat × Nat) :=
  places.map fun place => if place.2.1 = node then (place.1, node, idx) else place

lemma map_place_tell (entries : List CTxMemPoolEntry) (node idx : Nat) :
    (entries.map fun e => if e.node = node then { e with vTxHashesIdx := idx } else e).map
      CTxMemPoolEntry.place = tell (entries.map CTxMemPoolEntry.place) node idx := by
  simp only [tell, map_map]
  refine map_congr_left fun e _ => ?_
  by_cases hnode : e.node = node <;> simp [CTxMemPoolEntry.place, hnode]

lemma exists?_eq_false (h : pool.exists? hash = false) : ∀ place ∈ pool.places, place.1 ≠ hash := by
  intro place hplace heq
  obtain ⟨e, he, rfl⟩ := mem_map.mp hplace
  have htrue : pool.exists? hash = true := Table.contains_eq_true_iff.mpr ⟨e, he, heq⟩
  exact Bool.false_ne_true (h.symm.trans htrue)

/-- What adding a new transaction does to the index. -/
lemma addUnchecked_new (hfresh : pool.NodesFresh) (hnew : pool.exists? entry.hash = false)
    (h : pool.addUnchecked entry setAncestors = some pool') :
    pool'.places = (entry.hash, pool.nextNode, pool.vTxHashes.length) :: pool.places ∧
      pool'.vTxHashes = pool.vTxHashes ++ [(entry.hash, pool.nextNode)] ∧
      pool'.nextNode = pool.nextNode + 1 := by
  obtain ⟨mid, newit, hsame, hhash, hmem, rfl⟩ := addUnchecked_eq_some h
  have hinsert : (pool.insertEntry entry).places =
      (entry.hash, pool.nextNode, entry.vTxHashesIdx) :: pool.places := by
    have hcontains : pool.mapTx.contains entry.hash = false := hnew
    rw [insertEntry, if_neg (by simp [hnew])]
    simp only [places]
    rw [Table.entries_insert (by exact hcontains), map_cons]
    rfl
  have hnode : newit.node = pool.nextNode := by
    rw [hsame.places, hinsert, mem_cons] at hmem
    rcases hmem with heq | hold
    · exact congrArg (fun place => place.2.1) heq
    · exact absurd hhash (exists?_eq_false hnew _ hold)
  have hvector : mid.vTxHashes = pool.vTxHashes := by
    rw [hsame.vTxHashes, insertEntry, if_neg (by simp [hnew])]
  refine ⟨?_, ?_, ?_⟩
  · have htell : (mid.pushHash newit).places =
        tell mid.places newit.node mid.vTxHashes.length :=
      map_place_tell _ _ _
    have hold : tell pool.places pool.nextNode pool.vTxHashes.length = pool.places :=
      (map_congr_left fun place hplace => if_neg (hfresh.lt place hplace).ne).trans
        (map_id _)
    rw [htell, hsame.places, hinsert, hnode, hvector, tell, map_cons, ← tell, hold]
    simp
  · show mid.vTxHashes ++ _ = _
    rw [hvector, hhash, hnode]
  · show mid.nextNode = _
    rw [hsame.nextNode, insertEntry, if_neg (by simp [hnew])]

/-- What adding a transaction again does to the index. -/
lemma addUnchecked_again (hold : pool.exists? entry.hash = true)
    (h : pool.addUnchecked entry setAncestors = some pool') :
    ∃ newit : CTxMemPoolEntry, newit.hash = entry.hash ∧
      newit.place ∈ pool.places ∧
      pool'.places = tell pool.places newit.node pool.vTxHashes.length ∧
      pool'.vTxHashes = pool.vTxHashes ++ [newit.ref] ∧ pool'.nextNode = pool.nextNode := by
  obtain ⟨mid, newit, hsame, hhash, hmem, rfl⟩ := addUnchecked_eq_some h
  rw [insertEntry, if_pos hold] at hsame
  rw [hsame.places] at hmem
  have htell : (mid.pushHash newit).places =
      tell mid.places newit.node mid.vTxHashes.length :=
      map_place_tell _ _ _
  rw [hsame.places, hsame.vTxHashes] at htell
  refine ⟨newit, hhash, hmem, htell, ?_, hsame.nextNode⟩
  show mid.vTxHashes ++ _ = _
  rw [hsame.vTxHashes]
  rfl

/-- What removing a transaction does to the index. -/
lemma removeUnchecked_eq_some (h : pool.removeUnchecked hash = some pool') :
    ∃ it ∈ pool.mapTx.entries, it.hash = hash ∧ pool'.nextNode = pool.nextNode ∧
      ((∃ back, pool.vTxHashes.getLast? = some back ∧
          pool'.places = (tell pool.places back.2 it.vTxHashesIdx).filter (·.1 ≠ hash) ∧
          pool'.vTxHashes = swapRemove pool.vTxHashes it.vTxHashesIdx) ∨
        pool.vTxHashes.length ≤ 1 ∧ pool'.places = pool.places.filter (·.1 ≠ hash) ∧
          pool'.vTxHashes = []) := by
  have hfilter (entries : List CTxMemPoolEntry) :
      (entries.filter fun e => e.hash ≠ hash).map CTxMemPoolEntry.place =
        (entries.map CTxMemPoolEntry.place).filter (·.1 ≠ hash) := by
    rw [filter_map]
    rfl
  simp only [removeUnchecked, dropHash, Option.bind_eq_bind, Option.bind_eq_some_iff,
    Option.some.injEq] at h
  obtain ⟨it, hfind, pool₁, hdrop, rfl⟩ := h
  obtain ⟨hmem, hhash⟩ := Table.find?_eq_some_iff.mp hfind
  refine ⟨it, hmem, hhash, ?_⟩
  split_ifs at hdrop with hlong
  · cases hback : pool.vTxHashes.getLast? with
    | none => simp [hback] at hdrop
    | some back =>
      simp only [hback] at hdrop
      split_ifs at hdrop
      obtain rfl := Option.some.inj hdrop
      refine ⟨rfl, .inl ⟨back, rfl, ?_, rfl⟩⟩
      rw [places, places, ← map_place_tell, ← hfilter]
      rfl
  · obtain rfl := Option.some.inj hdrop
    exact ⟨rfl, .inr ⟨not_lt.mp hlong, hfilter _, rfl⟩⟩

/-! ## The invariant -/

lemma nodes_tell (places : List (Uint256 × Nat × Nat)) (node idx : Nat) :
    (tell places node idx).map (fun place => place.2.1) = places.map fun place => place.2.1 := by
  rw [tell, map_map]
  refine map_congr_left fun place _ => ?_
  by_cases h : place.2.1 = node <;> simp [h]

variable {places : List (Uint256 × Nat × Nat)} {n node idx : Nat}

lemma mem_tell :
    (hash, n, i) ∈ tell places node idx ↔
      (n = node ∧ i = idx ∧ ∃ j, (hash, n, j) ∈ places) ∨ (n ≠ node ∧ (hash, n, i) ∈ places) := by
  simp only [tell, mem_map]
  constructor
  · rintro ⟨⟨hash', n', j⟩, hmem, heq⟩
    split_ifs at heq with hnode
    · cases heq
      exact .inl ⟨rfl, rfl, j, hnode ▸ hmem⟩
    · cases heq
      exact .inr ⟨hnode, hmem⟩
  · rintro (⟨rfl, rfl, j, hmem⟩ | ⟨hne, hmem⟩)
    · exact ⟨(hash, n, j), hmem, if_pos rfl⟩
    · exact ⟨(hash, n, i), hmem, if_neg hne⟩

lemma exists_mem_tell :
    (∃ i, (hash, n, i) ∈ tell places node idx) ↔ ∃ i, (hash, n, i) ∈ places := by
  simp only [mem_tell]
  constructor
  · rintro ⟨i, ⟨-, -, j, hmem⟩ | ⟨-, hmem⟩⟩
    exacts [⟨j, hmem⟩, ⟨i, hmem⟩]
  · rintro ⟨i, hmem⟩
    by_cases hn : n = node
    exacts [⟨idx, .inl ⟨hn, rfl, i, hmem⟩⟩, ⟨i, .inr ⟨hn, hmem⟩⟩]

/-- The places after an operation that adds none: some of those before, with other positions. -/
lemma NodesFresh.of_sublist (h : pool.NodesFresh)
    (hsub : (pool'.places.map fun place => place.2.1).Sublist
      (pool.places.map fun place => place.2.1))
    (hnext : pool'.nextNode = pool.nextNode) : pool'.NodesFresh := by
  refine ⟨h.nodup.sublist hsub, fun place hplace => ?_⟩
  obtain ⟨place', hmem, heq⟩ := mem_map.mp (hsub.subset (mem_map_of_mem hplace))
  rw [hnext, ← heq]
  exact h.lt place' hmem

lemma hashesExact_new : new.HashesExact ∧ new.NodesFresh :=
  ⟨⟨by simp [new, Table.empty], by simp [new, Table.empty], by simp [new]⟩,
    ⟨by simp [places, new, Table.empty], by simp [places, new, Table.empty]⟩⟩

section Add

variable (h : pool.addUnchecked entry setAncestors = some pool')
include h

lemma nodesFresh_addUnchecked (hfresh : pool.NodesFresh) : pool'.NodesFresh := by
  cases hold : pool.exists? entry.hash with
  | true =>
    obtain ⟨newit, -, -, hplaces, -, hnext⟩ := addUnchecked_again hold h
    refine hfresh.of_sublist ?_ hnext
    rw [hplaces, nodes_tell]
  | false =>
    obtain ⟨hplaces, -, hnext⟩ := addUnchecked_new hfresh hold h
    have hlt (node : Nat) (hnode : node ∈ pool.places.map fun place => place.2.1) :
        node < pool.nextNode := by
      obtain ⟨place, hmem, rfl⟩ := mem_map.mp hnode
      exact hfresh.lt place hmem
    refine ⟨?_, fun place hplace => ?_⟩
    · rw [hplaces, map_cons, nodup_cons]
      exact ⟨fun hmem => (hlt _ hmem).ne rfl, hfresh.nodup⟩
    · rw [hplaces, mem_cons] at hplace
      rw [hnext]
      rcases hplace with rfl | hmem
      · exact Nat.lt_succ_self _
      · exact (hfresh.lt place hmem).trans (Nat.lt_succ_self _)

lemma hashesExact_add_new (hexact : pool.HashesExact) (hfresh : pool.NodesFresh)
    (hnew : pool.exists? entry.hash = false) : pool'.HashesExact := by
  obtain ⟨hplaces, hvector, -⟩ := addUnchecked_new hfresh hnew h
  rw [hashesExact_iff] at hexact ⊢
  rw [hvector]
  refine hexact.push ?_ ?_ ?_ ?_
  · intro hlive
    obtain ⟨i, hmem⟩ := live_iff.mp hlive
    exact exists?_eq_false hnew _ hmem rfl
  · intro p
    simp only [live_iff, hplaces, mem_cons, exists_or, Prod.ext_iff]
    constructor
    · rintro (⟨i, h₁, h₂, -⟩ | hmem)
      exacts [.inr ⟨h₁, h₂⟩, .inl hmem]
    · rintro (hmem | ⟨h₁, h₂⟩)
      exacts [.inr hmem, .inl ⟨_, h₁, h₂, rfl⟩]
  · intro p hlive
    obtain ⟨i, hmem⟩ := live_iff.mp hlive
    rw [position_eq hmem]
    exact position_eq (hplaces ▸ mem_cons_of_mem _ hmem)
  · exact position_eq (hplaces ▸ mem_cons_self)

/-- A transaction that is added again is listed twice. -/
lemma not_hashesExact_add_again (hexact : pool.HashesExact)
    (hold : pool.exists? entry.hash = true) : ¬pool'.HashesExact := by
  obtain ⟨newit, -, hmem, -, hvector, -⟩ := addUnchecked_again hold h
  rw [hashesExact_iff] at hexact ⊢
  intro hexact'
  have hnodup := hexact'.nodup
  rw [hvector, nodup_append] at hnodup
  have hlisted : newit.ref ∈ pool.vTxHashes := hexact.mem_iff.mpr (live_iff.mpr ⟨_, hmem⟩)
  exact hnodup.2.2 _ hlisted _ mem_cons_self rfl

end Add

lemma nodesFresh_removeUnchecked (hfresh : pool.NodesFresh)
    (h : pool.removeUnchecked hash = some pool') : pool'.NodesFresh := by
  obtain ⟨it, -, -, hnext, ⟨back, -, hplaces, -⟩ | ⟨-, hplaces, -⟩⟩ := removeUnchecked_eq_some h
  · refine hfresh.of_sublist ?_ hnext
    rw [hplaces, ← nodes_tell pool.places back.2 it.vTxHashesIdx]
    exact filter_sublist.map _
  · refine hfresh.of_sublist ?_ hnext
    rw [hplaces]
    exact filter_sublist.map _

lemma hashesExact_removeUnchecked (hexact : pool.HashesExact) (hfresh : pool.NodesFresh)
    (h : pool.removeUnchecked hash = some pool') : pool'.HashesExact := by
  obtain ⟨it, hit, hhash, -, hcases⟩ := removeUnchecked_eq_some h
  rw [hashesExact_iff] at hexact ⊢
  have hplace : (it.ref.1, it.ref.2, it.vTxHashesIdx) ∈ pool.places := mem_map_of_mem hit
  have hself : pool.Live it.ref := ⟨it, hit, rfl⟩
  have hother {p : Uint256 × Nat} (hlive : pool.Live p) : p ≠ it.ref ↔ p.1 ≠ hash := by
    obtain ⟨i, hmem⟩ := live_iff.mp hlive
    refine not_congr ⟨fun heq => heq ▸ hhash, fun heq => ?_⟩
    have hsame := place_eq_of_hash_eq hmem hplace (heq.trans hhash.symm)
    simp only [Prod.mk.injEq] at hsame
    exact Prod.ext hsame.1 hsame.2.1
  obtain ⟨back, hback, hplaces, hvector⟩ | ⟨hshort, hplaces, hvector⟩ := hcases
  · have hmem' {p : Uint256 × Nat} {i : Nat} : (p.1, p.2, i) ∈ pool'.places ↔
        (p.1, p.2, i) ∈ tell pool.places back.2 it.vTxHashesIdx ∧ p.1 ≠ hash := by
      simp [hplaces]
    have hlive' (p : Uint256 × Nat) : pool'.Live p ↔ pool.Live p ∧ p ≠ it.ref := by
      simp only [live_iff, hmem', exists_and_right, exists_mem_tell]
      exact and_congr_right fun hlive => (hother (live_iff.mpr hlive)).symm
    have hbackLive : pool.Live back := hexact.mem_iff.mp (mem_of_getLast? hback)
    obtain ⟨j, hbackMem⟩ := live_iff.mp hbackLive
    rw [hvector, ← position_ref hit]
    refine hexact.swapRemove hself hback hlive' (fun hne => ?_) (fun p hlive hne hneBack => ?_)
    · rw [position_ref hit]
      exact position_eq (hmem'.mpr ⟨mem_tell.mpr (.inl ⟨rfl, rfl, j, hbackMem⟩),
        (hother hbackLive).mp hne⟩)
    · obtain ⟨i, hmem⟩ := live_iff.mp hlive
      have hnode : p.2 ≠ back.2 := by
        intro heq
        have hsame := inj_on_of_nodup_map hfresh.nodup hmem hbackMem heq
        simp only [Prod.mk.injEq] at hsame
        exact hneBack (Prod.ext hsame.1 heq)
      rw [position_eq hmem]
      exact position_eq (hmem'.mpr ⟨mem_tell.mpr (.inr ⟨hnode, hmem⟩), (hother hlive).mp hne⟩)
  · rw [hvector]
    refine indexed_nil fun p hlive' => ?_
    obtain ⟨i, hmem⟩ := live_iff.mp hlive'
    obtain ⟨hmem, hne⟩ : (p.1, p.2, i) ∈ pool.places ∧ p.1 ≠ hash := by simpa [hplaces] using hmem
    have hlive : pool.Live p := live_iff.mpr ⟨i, hmem⟩
    -- both would be the only element of the vector
    have hp := hexact.pos_lt hlive
    have hit' := hexact.pos_lt hself
    have hpos : pool.position p = pool.position it.ref := by omega
    have hget := hexact.getElem?_pos hlive
    rw [hpos, hexact.getElem?_pos hself, Option.some.injEq] at hget
    exact (hother hlive).mpr hne hget.symm

/-- Clearing the pool leaves the vector as it is. -/
lemma hashesExact_clear_iff (hexact : pool.HashesExact) :
    pool.clear.HashesExact ↔ pool.mapTx.entries = [] := by
  constructor
  · intro hclear
    rw [eq_nil_iff_forall_not_mem]
    intro e he
    have hlisted : e.ref ∈ pool.vTxHashes := by
      rw [hashesExact_iff] at hexact
      exact hexact.mem_iff.mpr ⟨e, he, rfl⟩
    obtain ⟨e', he', -⟩ := hclear.live e.ref hlisted
    simp [clear, Table.empty] at he'
  · intro hempty
    refine ⟨by simp [clear, Table.empty], by simp [clear, Table.empty], fun p hp => ?_⟩
    obtain ⟨e, he, -⟩ := hexact.live p hp
    simp [hempty] at he

/-! ## Runs -/

inductive PoolOp
  | addUnchecked (entry : CTxMemPoolEntry) (setAncestors : List Uint256)
  | removeUnchecked (hash : Uint256)
  | clear

def step (pool : CTxMemPool) : PoolOp → Option CTxMemPool
  | .addUnchecked entry setAncestors => pool.addUnchecked entry setAncestors
  | .removeUnchecked hash => pool.removeUnchecked hash
  | .clear => some pool.clear

def run (pool : CTxMemPool) (ops : List PoolOp) : Option CTxMemPool :=
  ops.foldlM step pool

/-- The operation keeps the index: a transaction that is added is not in the pool, and a pool that
is cleared is empty. -/
def Keeps (pool : CTxMemPool) : PoolOp → Prop
  | .addUnchecked entry _ => pool.exists? entry.hash = false
  | .removeUnchecked _ => True
  | .clear => pool.mapTx.entries = []

variable {op : PoolOp}

lemma nodesFresh_step (hfresh : pool.NodesFresh) (h : pool.step op = some pool') :
    pool'.NodesFresh := by
  cases op with
  | addUnchecked entry setAncestors => exact nodesFresh_addUnchecked h hfresh
  | removeUnchecked hash => exact nodesFresh_removeUnchecked hfresh h
  | clear =>
    obtain rfl := Option.some.inj h
    exact ⟨by simp [places, CTxMemPool.clear, Table.empty],
      by simp [places, CTxMemPool.clear, Table.empty]⟩

lemma hashesExact_step_iff (hexact : pool.HashesExact) (hfresh : pool.NodesFresh)
    (h : pool.step op = some pool') : pool'.HashesExact ↔ pool.Keeps op := by
  cases op with
  | addUnchecked entry setAncestors =>
    cases hold : pool.exists? entry.hash with
    | true => simp [Keeps, hold, not_hashesExact_add_again h hexact hold]
    | false => simp [Keeps, hold, hashesExact_add_new h hexact hfresh hold]
  | removeUnchecked hash =>
    exact iff_of_true (hashesExact_removeUnchecked hexact hfresh h) trivial
  | clear =>
    obtain rfl := Option.some.inj h
    exact hashesExact_clear_iff hexact

variable {ops : List PoolOp}

lemma run_take_succ (hop : ops[n]? = some op) :
    pool.run (ops.take (n + 1)) = (pool.run (ops.take n)).bind (step · op) := by
  obtain ⟨hlt, rfl⟩ := List.getElem?_eq_some_iff.mp hop
  simp only [run, List.take_succ_eq_append_getElem hlt, List.foldlM_append, List.foldlM_cons,
    foldlM_nil, bind_pure]
  rfl

lemma nodesFresh_run (hfresh : pool.NodesFresh) (h : pool.run ops = some pool') :
    pool'.NodesFresh := by
  induction ops generalizing pool with
  | nil => exact Option.some.inj h ▸ hfresh
  | cons op ops ih =>
    simp only [run, foldlM_cons, Option.bind_eq_bind, Option.bind_eq_some_iff] at h
    obtain ⟨pool₁, hstep, hrest⟩ := h
    exact ih (nodesFresh_step hfresh hstep) hrest

/-- The index is exact in every state of a run exactly when no operation of the run adds a
transaction again or clears a pool that is not empty: the first one that does leaves an index that
is not. -/
theorem hashesExact_run_iff (ops : List PoolOp) :
    (∀ n pool, new.run (ops.take n) = some pool → pool.HashesExact) ↔
      ∀ n op pool, ops[n]? = some op → new.run (ops.take n) = some pool →
        (pool.step op).isSome → pool.Keeps op := by
  constructor
  · intro hexact n op pool hop hrun hsome
    obtain ⟨pool', hstep⟩ := Option.isSome_iff_exists.mp hsome
    have hnext : new.run (ops.take (n + 1)) = some pool' := by
      rw [run_take_succ hop, hrun, Option.bind_some, hstep]
    exact (hashesExact_step_iff (hexact n pool hrun) (nodesFresh_run hashesExact_new.2 hrun)
      hstep).mp (hexact (n + 1) pool' hnext)
  · intro hkeeps n
    induction n with
    | zero =>
      intro pool hrun
      obtain rfl : new = pool := Option.some.inj hrun
      exact hashesExact_new.1
    | succ n ih =>
      intro pool' hrun
      cases hop : ops[n]? with
      | none =>
        have hlen : ops.length ≤ n := getElem?_eq_none_iff.mp hop
        rw [take_of_length_le (by omega), ← take_of_length_le hlen] at hrun
        exact ih pool' hrun
      | some op =>
        rw [run_take_succ hop, Option.bind_eq_some_iff] at hrun
        obtain ⟨pool, hrun, hstep⟩ := hrun
        exact (hashesExact_step_iff (ih pool hrun) (nodesFresh_run hashesExact_new.2 hrun)
          hstep).mpr (hkeeps n op pool hop hrun (by simp [hstep]))

def oneEntry : CTxMemPoolEntry :=
  .new ⟨fun _ => 7, fun _ => 0⟩ ⟨1, 0, [⟨⟨1, 0⟩, [], 0⟩], [⟨1, []⟩], 0⟩ 0 0

/-- A pool with one transaction is cleared; the iterator of the transaction is still listed. -/
theorem run_clear_dangles : ∃ pool,
    new.run [.addUnchecked oneEntry [], .clear] = some pool ∧ pool.mapTx.entries = [] ∧
      pool.vTxHashes = [(7, 0)] ∧ ¬pool.HashesExact := by
  refine ⟨_, rfl, rfl, rfl, fun hexact => ?_⟩
  obtain ⟨e, he, -⟩ := hexact.live (7, 0) mem_cons_self
  exact absurd he not_mem_nil

end CTxMemPool

end Jumpcoin
