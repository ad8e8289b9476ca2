import Jumpcoin.Coins.Cache
import Jumpcoin.Foundation.Sequences
import Jumpcoin.Foundation.Totals

/-!
# Caches as maps

A stack of caches behaves like a stack of plain maps of unspent records, the views of
`Jumpcoin.Coins.View`: the flags only save work. One thing the maps do not tell: a modification of
a transaction without unspent outputs starts from a spent record, and whether that is an empty one
or what a cache has kept of the last one depends on the flushes in between. The relation between
the two is local to a level. Over the map that the view below shows, a cache shows its own records
and for the rest those of the map; a record that is not dirty agrees with the map, and where a
record is fresh the map has none.
-/

namespace Jumpcoin

open List Option CCoins CoinsCache

/-! ## Plain maps -/

/-- What is done with the cache on top of a stack. A modification is given by what it does to the
record and by the memory the record takes afterwards. -/
inductive CoinsOp where
  | accessCoins (txid : Uint256)
  | haveCoins (txid : Uint256)
  | modifyCoins (txid : Uint256) (change : CCoins → CCoins) (nAllocated : Nat)
  | modifyNewCoins (txid : Uint256) (coinbase : Bool) (change : CCoins → CCoins) (nAllocated : Nat)
  | uncache (txid : Uint256)
  | flush
  | push
  | pop
  | getBestBlock
  | setBestBlock (hashBlock : Uint256)

/-- The same on a stack of maps. A modification starts from the unspent record; if there is none,
it can start from any spent one. -/
inductive MapStep : CoinsOp → List CCoinsViewCache → List CCoinsViewCache → Prop
  | accessCoins {txid : Uint256} {levels : List CCoinsViewCache} :
      MapStep (.accessCoins txid) levels levels
  | haveCoins {txid : Uint256} {levels : List CCoinsViewCache} :
      MapStep (.haveCoins txid) levels levels
  | modifyCoins {txid : Uint256} {change : CCoins → CCoins} {nAllocated : Nat}
      {top : CCoinsViewCache} {rest : List CCoinsViewCache} {record : CCoins} :
      record.unspent? = top.accessCoins txid →
      MapStep (.modifyCoins txid change nAllocated) (top :: rest)
        (top.setCoins txid (change record) :: rest)
  | modifyNewCoins {txid : Uint256} {coinbase : Bool} {change : CCoins → CCoins} {nAllocated : Nat}
      {top : CCoinsViewCache} {rest : List CCoinsViewCache} :
      MapStep (.modifyNewCoins txid coinbase change nAllocated) (top :: rest)
        (top.setCoins txid (change CCoins.empty) :: rest)
  | uncache {txid : Uint256} {levels : List CCoinsViewCache} : MapStep (.uncache txid) levels levels
  | flush {top below : CCoinsViewCache} {rest : List CCoinsViewCache} :
      MapStep .flush (top :: below :: rest) (top :: top :: rest)
  | push {top : CCoinsViewCache} {rest : List CCoinsViewCache} :
      MapStep .push (top :: rest) (top :: top :: rest)
  | pop {top below : CCoinsViewCache} {rest : List CCoinsViewCache} :
      MapStep .pop (top :: below :: rest) (below :: rest)
  | getBestBlock {levels : List CCoinsViewCache} : MapStep .getBestBlock levels levels
  | setBestBlock {hashBlock : Uint256} {top : CCoinsViewCache} {rest : List CCoinsViewCache} :
      MapStep (.setBestBlock hashBlock) (top :: rest) (top.setBestBlock hashBlock :: rest)

/-! ## Runs of a stack of caches -/

/-- The entries of a map in some order. -/
structure Lists (mapCoins : List (Uint256 × CCoinsCacheEntry))
    (m : Finmap fun _ : Uint256 => CCoinsCacheEntry) : Prop where
  nodup : (mapCoins.map Prod.fst).Nodup
  mem : ∀ txid entry, (txid, entry) ∈ mapCoins ↔ m.lookup txid = some entry

lemma Lists.notMem {mapCoins : List (Uint256 × CCoinsCacheEntry)}
    {m : Finmap fun _ : Uint256 => CCoinsCacheEntry} {txid : Uint256} (h : Lists mapCoins m)
    (hnone : m.lookup txid = none) : txid ∉ mapCoins.map Prod.fst := by
  intro hmem
  obtain ⟨⟨txid', entry⟩, hlisted, rfl⟩ := List.mem_map.mp hmem
  rw [(h.mem txid' entry).mp hlisted] at hnone
  cases hnone

/-- A flush overwrites the best block of the view below also where the cache has none of its own;
then the view below must not have had one of its own either. -/
def KeepsBest (top : CoinsCache) (base : CoinsView) : Prop :=
  top.hashBlock ≠ 0 ∨ base.getBestBlock.1 = base.backend.getBestBlock.1

/-- Steps of a stack of caches; `fSet` says whether best blocks are set at all. -/
inductive CacheStep (alloc : CCoins → Nat) (fSet : Bool) : CoinsOp → CoinsView → CoinsView → Prop
  | accessCoins {top : CoinsCache} {base : CoinsView} {txid : Uint256} :
      CacheStep alloc fSet (.accessCoins txid) (.cache top base)
        ((CoinsView.cache top base).getCoins alloc txid).2
  | haveCoins {top : CoinsCache} {base : CoinsView} {txid : Uint256} :
      CacheStep alloc fSet (.haveCoins txid) (.cache top base)
        ((CoinsView.cache top base).haveCoins alloc txid).2
  | modifyCoins {top : CoinsCache} {base : CoinsView} {txid : Uint256} {change : CCoins → CCoins}
      {nAllocated : Nat} :
      CacheStep alloc fSet (.modifyCoins txid change nAllocated) (.cache top base)
        (.modifyCoins alloc txid change nAllocated top base)
  | modifyNewCoins {top : CoinsCache} {base : CoinsView} {txid : Uint256} {coinbase : Bool}
      {change : CCoins → CCoins} {nAllocated : Nat} :
      ((CoinsView.cache top base).getCoins alloc txid).1.bind CCoins.unspent? = none →
      (coinbase = false → (base.getCoins alloc txid).1.bind CCoins.unspent? = none) →
      CacheStep alloc fSet (.modifyNewCoins txid coinbase change nAllocated) (.cache top base)
        (.cache (top.modifyNewCoins txid coinbase change nAllocated) base)
  | uncache {top : CoinsCache} {base : CoinsView} {txid : Uint256} :
      CacheStep alloc fSet (.uncache txid) (.cache top base) (.cache (top.uncache txid) base)
  | flush {top : CoinsCache} {base : CoinsView} {mapCoins : List (Uint256 × CCoinsCacheEntry)} :
      Lists mapCoins top.cacheCoins → (fSet = true → KeepsBest top base) →
      CacheStep alloc fSet .flush (.cache top base) (.flush mapCoins top base)
  | push {view : CoinsView} : CacheStep alloc fSet .push view (.cache .empty view)
  | pop {top : CoinsCache} {base : CoinsView} : CacheStep alloc fSet .pop (.cache top base) base
  | getBestBlock {top : CoinsCache} {base : CoinsView} :
      CacheStep alloc fSet .getBestBlock (.cache top base) (CoinsView.cache top base).getBestBlock.2
  | setBestBlock {top : CoinsCache} {base : CoinsView} {hashBlock : Uint256} :
      fSet = true → hashBlock ≠ 0 →
      CacheStep alloc fSet (.setBestBlock hashBlock) (.cache top base)
        (.cache { top with hashBlock } base)

/-- All levels are flushed, one after the other. -/
inductive FlushedAll (fSet : Bool) : CoinsView → CCoinsViewDB → Prop
  | db {store : CCoinsViewDB} : FlushedAll fSet (.db store) store
  | cache {top : CoinsCache} {base : CoinsView} {mapCoins : List (Uint256 × CCoinsCacheEntry)}
      {store : CCoinsViewDB} :
      Lists mapCoins top.cacheCoins → (fSet = true → KeepsBest top base) →
      FlushedAll fSet (base.batchWrite mapCoins top.hashBlock) store →
      FlushedAll fSet (.cache top base) store

/-! ## One level -/

/-- An entry of a cache over the map that the view below shows. -/
structure CCoinsCacheEntry.Over (below : CCoinsViewCache) (txid : Uint256)
    (entry : CCoinsCacheEntry) : Prop where
  clean : entry.coins.Clean
  usage : entry.coins.vout = [] → entry.nUsage = 0
  same : entry.dirty = false → entry.coins.unspent? = below.accessCoins txid
  fresh : entry.fresh = true → below.accessCoins txid = none

def CoinsCache.shown (cache : CoinsCache) (below : CCoinsViewCache) (txid : Uint256) :
    Option CCoins :=
  match cache.cacheCoins.lookup txid with
  | some entry => entry.coins.unspent?
  | none => below.accessCoins txid

def CoinsCache.UsageExact (cache : CoinsCache) : Prop :=
  cache.cachedCoinsUsage = MapTotal.total CCoinsCacheEntry.nUsage cache.cacheCoins

/-- A cache over a map shows another map. -/
structure CoinsCache.Over (fSet : Bool) (cache : CoinsCache) (below top : CCoinsViewCache) :
    Prop where
  entries : ∀ txid entry, cache.cacheCoins.lookup txid = some entry → entry.Over below txid
  shown : ∀ txid, top.accessCoins txid = cache.shown below txid
  usage : cache.UsageExact
  best : top.hashBlock = if cache.hashBlock = 0 then below.hashBlock else cache.hashBlock
  settled : fSet = false → top.hashBlock = below.hashBlock

lemma CCoins.unspent?_eq_none {coins : CCoins} : coins.unspent? = none ↔ coins.isPruned = true := by
  unfold unspent?
  split_ifs with h <;> simp [h]

namespace CoinsCache

variable {fSet : Bool} {cache cache' : CoinsCache} {below top top' : CCoinsViewCache}
variable {txid txid' : Uint256} {entry : CCoinsCacheEntry} {nOld : Nat}

lemma shown_of_lookup (h : cache.cacheCoins.lookup txid = some entry) :
    cache.shown below txid = entry.coins.unspent? := by
  rw [shown, h]

lemma shown_of_none (h : cache.cacheCoins.lookup txid = none) :
    cache.shown below txid = below.accessCoins txid := by
  rw [shown, h]

/-- A change at one transaction. -/
lemma Over.update (h : cache.Over fSet below top) (txid : Uint256)
    (hother : ∀ txid', txid' ≠ txid →
      cache'.cacheCoins.lookup txid' = cache.cacheCoins.lookup txid')
    (hentry : ∀ entry, cache'.cacheCoins.lookup txid = some entry → entry.Over below txid)
    (hhash : cache'.hashBlock = cache.hashBlock) (husage : cache'.UsageExact)
    (htop : ∀ txid', txid' ≠ txid → top'.accessCoins txid' = top.accessCoins txid')
    (hshown : top'.accessCoins txid = cache'.shown below txid)
    (hbest : top'.hashBlock = top.hashBlock) : cache'.Over fSet below top' where
  entries := by
    intro txid' entry hlookup
    by_cases heq : txid' = txid
    · subst heq
      exact hentry entry hlookup
    · exact h.entries txid' entry (hother txid' heq ▸ hlookup)
  shown := by
    intro txid'
    by_cases heq : txid' = txid
    · rw [heq, hshown]
    · rw [htop txid' heq, h.shown, CoinsCache.shown, CoinsCache.shown, hother txid' heq]
  usage := husage
  best := by rw [hbest, hhash, h.best]
  settled := fun hset => hbest.trans (h.settled hset)

section

variable (h : cache.UsageExact)
  (hold : MapTotal.measureAt CCoinsCacheEntry.nUsage cache.cacheCoins txid = nOld)
include h hold

lemma UsageExact.insert (hmap : cache'.cacheCoins = cache.cacheCoins.insert txid entry)
    (husage : cache'.cachedCoinsUsage = cache.cachedCoinsUsage - nOld + entry.nUsage) :
    cache'.UsageExact := by
  have htotal := MapTotal.total_insert (f := CCoinsCacheEntry.nUsage) (m := cache.cacheCoins)
    (k := txid) (b := entry)
  unfold UsageExact at *
  rw [hmap, husage, h]
  omega

lemma UsageExact.erase (hmap : cache'.cacheCoins = cache.cacheCoins.erase txid)
    (husage : cache'.cachedCoinsUsage = cache.cachedCoinsUsage - nOld) : cache'.UsageExact := by
  have htotal := MapTotal.total_erase (f := CCoinsCacheEntry.nUsage) (m := cache.cacheCoins)
    (k := txid)
  unfold UsageExact at *
  rw [hmap, husage, h]
  omega

end

lemma measureAt_of_lookup (h : cache.cacheCoins.lookup txid = some entry) :
    MapTotal.measureAt CCoinsCacheEntry.nUsage cache.cacheCoins txid = entry.nUsage := by
  rw [MapTotal.measureAt, h, map_some, getD_some]

lemma measureAt_of_none (h : cache.cacheCoins.lookup txid = none) :
    MapTotal.measureAt CCoinsCacheEntry.nUsage cache.cacheCoins txid = 0 := by
  rw [MapTotal.measureAt, h, map_none, getD_none]

section

variable (h : cache.Over fSet below top)
include h

lemma Over.fetched (alloc : CCoins → Nat) {tmp : CCoins}
    (hnone : cache.cacheCoins.lookup txid = none) (hclean : tmp.Clean)
    (hbelow : tmp.unspent? = below.accessCoins txid) :
    (cache.fetched alloc txid tmp).Over fSet below top := by
  have hlookup : (cache.fetched alloc txid tmp).cacheCoins.lookup txid =
      some ⟨tmp, tmp.usage (alloc tmp), false, tmp.isPruned⟩ := Finmap.lookup_insert _
  refine h.update txid (fun txid' hne => Finmap.lookup_insert_of_ne _ hne) ?_ rfl ?_
    (fun _ _ => rfl) ?_ rfl
  · intro entry hentry
    obtain rfl := some.inj (hlookup.symm.trans hentry)
    refine ⟨hclean, fun hempty => if_pos hempty, fun _ => hbelow, fun hfresh => ?_⟩
    rw [← hbelow, unspent?_eq_none.mpr hfresh]
  · exact h.usage.insert (measureAt_of_none hnone) rfl (by simp [CoinsCache.fetched])
  · rw [h.shown, shown_of_none hnone, shown_of_lookup hlookup, hbelow]

/-- The end of a modification that started from a dirty entry. -/
lemma Over.modified (change : CCoins → CCoins) (nAllocated : Nat) (hdirty : entry.dirty = true)
    (hfresh : entry.fresh = true → below.accessCoins txid = none)
    (hold : MapTotal.measureAt CCoinsCacheEntry.nUsage cache.cacheCoins txid = nOld) :
    (cache.modified txid entry change nAllocated nOld).Over fSet below
      (top.setCoins txid (change entry.coins)) := by
  have hset : (top.setCoins txid (change entry.coins)).accessCoins txid =
      (change entry.coins).cleanup.unspent? := CCoinsViewCache.accessCoins_setCoins_self
  have htop : ∀ txid', txid' ≠ txid →
      (top.setCoins txid (change entry.coins)).accessCoins txid' = top.accessCoins txid' :=
    fun _ => CCoinsViewCache.accessCoins_setCoins_of_ne
  unfold CoinsCache.modified
  dsimp only
  split_ifs with hdrop
  · obtain ⟨hisFresh, hpruned⟩ := Bool.and_eq_true_iff.mp hdrop
    have hlookup : (cache.cacheCoins.erase txid).lookup txid = none := Finmap.lookup_erase _ _
    refine h.update txid (fun _ hne => Finmap.lookup_erase_ne hne) ?_ rfl
      (h.usage.erase hold rfl rfl) htop ?_ rfl
    · intro entry' hentry
      rw [hlookup] at hentry
      cases hentry
    · rw [hset, shown_of_none hlookup, hfresh hisFresh, unspent?_eq_none.mpr hpruned]
  · refine h.update txid (fun _ hne => Finmap.lookup_insert_of_ne _ hne) ?_ rfl
      (h.usage.insert hold rfl rfl) htop ?_ rfl
    · intro entry' hentry
      obtain rfl := some.inj ((Finmap.lookup_insert _).symm.trans hentry)
      refine ⟨cleanup_clean _, fun hempty => if_pos hempty, fun hclean => ?_, hfresh⟩
      exact absurd (hdirty.symm.trans hclean) (by decide)
    · rw [hset, shown_of_lookup (Finmap.lookup_insert _)]

/-- A new record in place of a spent one or none. -/
lemma Over.modifyNewCoins {coinbase : Bool}
    (change : CCoins → CCoins) (nAllocated : Nat) (hspent : top.accessCoins txid = none)
    (hbelow : coinbase = false → below.accessCoins txid = none) :
    (cache.modifyNewCoins txid coinbase change nAllocated).Over fSet below
      (top.setCoins txid (change CCoins.empty)) := by
  refine h.modified change nAllocated rfl ?_ ?_
  · intro hfresh
    cases coinbase with
    | false => exact hbelow rfl
    | true =>
      cases hlookup : cache.cacheCoins.lookup txid with
      | none => simp [hlookup] at hfresh
      | some entry =>
        exact (h.entries txid entry hlookup).fresh (by simpa [hlookup] using hfresh)
  · cases hlookup : cache.cacheCoins.lookup txid with
    | none => exact measureAt_of_none hlookup
    | some entry =>
      -- a spent record has no outputs left, so it takes no memory
      have hover := h.entries txid entry hlookup
      have hpruned : entry.coins.isPruned = true := by
        rw [h.shown, shown_of_lookup hlookup] at hspent
        exact unspent?_eq_none.mp hspent
      rw [measureAt_of_lookup hlookup]
      exact hover.usage ((isPruned_iff hover.clean).mp hpruned)

lemma Over.uncache (txid : Uint256) : (cache.uncache txid).Over fSet below top := by
  unfold CoinsCache.uncache
  cases hlookup : cache.cacheCoins.lookup txid with
  | none => exact h
  | some entry =>
    dsimp only
    split_ifs with hflags
    · have hdirty : entry.dirty = false := by
        cases hentry : entry.dirty <;> simp [hentry] at hflags ⊢
      have hnone : (cache.cacheCoins.erase txid).lookup txid = none := Finmap.lookup_erase _ _
      refine h.update txid (fun _ hne => Finmap.lookup_erase_ne hne) ?_ rfl
        (h.usage.erase (measureAt_of_lookup hlookup) rfl rfl) (fun _ _ => rfl) ?_ rfl
      · intro entry' hentry
        rw [hnone] at hentry
        cases hentry
      · rw [h.shown, shown_of_lookup hlookup, shown_of_none hnone,
          (h.entries txid entry hlookup).same hdirty]
    · exact h

end

end CoinsCache

/-! ## Writing to the level below -/

/-- What `BatchWrite` makes of the entry it finds for a record. -/
def CCoinsCacheEntry.writeTo (entry : CCoinsCacheEntry) (itUs : Option CCoinsCacheEntry) :
    Option CCoinsCacheEntry :=
  if entry.dirty then
    match itUs with
    | none =>
      if entry.fresh && entry.coins.isPruned then none else some { entry with dirty := true }
    | some itUs =>
      if itUs.fresh && entry.coins.isPruned then none
      else some { entry with dirty := true, fresh := itUs.fresh }
  else itUs

namespace CoinsCache

variable {fSet : Bool} {cache cache' : CoinsCache} {below below' top : CCoinsViewCache}
variable {txid : Uint256} {entry : CCoinsCacheEntry}
variable {mapCoins : List (Uint256 × CCoinsCacheEntry)}

/-- How a turn of the loop of `BatchWrite` can end. -/
inductive WriteEnds (cache : CoinsCache) (txid : Uint256) (entry : CCoinsCacheEntry) :
    CoinsCache → Prop
  | kept : entry.writeTo (cache.cacheCoins.lookup txid) = cache.cacheCoins.lookup txid →
      WriteEnds cache txid entry cache
  | erased {itUs : CCoinsCacheEntry} :
      entry.writeTo (cache.cacheCoins.lookup txid) = none →
      cache.cacheCoins.lookup txid = some itUs →
      WriteEnds cache txid entry
        { cache with
          cacheCoins := cache.cacheCoins.erase txid
          cachedCoinsUsage := cache.cachedCoinsUsage - itUs.nUsage }
  | inserted {entry' : CCoinsCacheEntry} {nOld : Nat} :
      entry.writeTo (cache.cacheCoins.lookup txid) = some entry' →
      MapTotal.measureAt CCoinsCacheEntry.nUsage cache.cacheCoins txid = nOld →
      WriteEnds cache txid entry
        { cache with
          cacheCoins := cache.cacheCoins.insert txid entry'
          cachedCoinsUsage := cache.cachedCoinsUsage - nOld + entry'.nUsage }

section

variable (cache : CoinsCache) (txid : Uint256) (entry : CCoinsCacheEntry)

lemma writeEntry_ends : WriteEnds cache txid entry (cache.writeEntry (txid, entry)) := by
  unfold writeEntry
  dsimp only
  by_cases hdirty : entry.dirty = true
  · cases hlookup : cache.cacheCoins.lookup txid with
    | none =>
      dsimp only
      split_ifs with hdrop
      · exact .kept (by simp [CCoinsCacheEntry.writeTo, hdirty, hlookup, hdrop])
      · have hwrite : entry.writeTo (cache.cacheCoins.lookup txid) =
            some { entry with dirty := true } := by
          simp [CCoinsCacheEntry.writeTo, hdirty, hlookup, hdrop]
        have hends := WriteEnds.inserted hwrite (measureAt_of_none hlookup)
        rwa [Nat.cast_zero, Int.sub_zero] at hends
    | some itUs =>
      dsimp only
      split_ifs with hdrop
      · exact .erased (by simp [CCoinsCacheEntry.writeTo, hdirty, hlookup, hdrop]) hlookup
      · exact .inserted (by simp [CCoinsCacheEntry.writeTo, hdirty, hlookup, hdrop])
          (measureAt_of_lookup hlookup)
  · rw [if_neg hdirty]
    exact .kept (by simp [CCoinsCacheEntry.writeTo, hdirty])

lemma writeEntry_lookup_self :
    (cache.writeEntry (txid, entry)).cacheCoins.lookup txid =
      entry.writeTo (cache.cacheCoins.lookup txid) := by
  have hends := cache.writeEntry_ends txid entry
  generalize cache.writeEntry (txid, entry) = cache' at hends
  cases hends with
  | kept hwrite => exact hwrite.symm
  | erased hwrite => exact (Finmap.lookup_erase _ _).trans hwrite.symm
  | inserted hwrite => exact (Finmap.lookup_insert _).trans hwrite.symm

end

lemma writeEntry_lookup_of_ne (cache : CoinsCache) (written : Uint256 × CCoinsCacheEntry)
    (txid : Uint256) (hne : txid ≠ written.1) :
    (cache.writeEntry written).cacheCoins.lookup txid = cache.cacheCoins.lookup txid := by
  have hends := cache.writeEntry_ends written.1 written.2
  generalize cache.writeEntry (written.1, written.2) = cache' at hends
  cases hends with
  | kept => rfl
  | erased => exact Finmap.lookup_erase_ne hne
  | inserted => exact Finmap.lookup_insert_of_ne _ hne

lemma UsageExact.writeEntry (h : cache.UsageExact) (written : Uint256 × CCoinsCacheEntry) :
    (cache.writeEntry written).UsageExact := by
  have hends := cache.writeEntry_ends written.1 written.2
  generalize cache.writeEntry (written.1, written.2) = cache' at hends
  cases hends with
  | kept => exact h
  | erased _ hlookup => exact h.erase (measureAt_of_lookup hlookup) rfl rfl
  | inserted _ hold => exact h.insert hold rfl rfl

lemma UsageExact.foldl_writeEntry (h : cache.UsageExact)
    (mapCoins : List (Uint256 × CCoinsCacheEntry)) :
    (mapCoins.foldl CoinsCache.writeEntry cache).UsageExact := by
  induction mapCoins generalizing cache with
  | nil => exact h
  | cons written mapCoins ih => exact ih (h.writeEntry written)

/-- A dirty entry takes the place of the one below it, or both go. -/
lemma writeTo_spec {itUs : Option CCoinsCacheEntry} (hentry : entry.Over below txid)
    (hitUs : ∀ u, itUs = some u → u.Over below' txid)
    (hbelow : below.accessCoins txid =
      (itUs.map fun u => u.coins.unspent?).getD (below'.accessCoins txid)) :
    (∀ u, entry.writeTo itUs = some u → u.Over below' txid) ∧
      ((entry.writeTo itUs).map fun u => u.coins.unspent?).getD (below'.accessCoins txid) =
        entry.coins.unspent? := by
  by_cases hdirty : entry.dirty = true
  · obtain ⟨fresh, hfresh, heq⟩ : ∃ fresh : Bool,
        (fresh = true → below'.accessCoins txid = none) ∧ entry.writeTo itUs =
          if fresh && entry.coins.isPruned then none
          else some { entry with dirty := true, fresh } := by
      cases itUs with
      | none => exact ⟨entry.fresh, fun h => hbelow.symm.trans (hentry.fresh h), if_pos hdirty⟩
      | some itUs => exact ⟨itUs.fresh, (hitUs itUs rfl).fresh, if_pos hdirty⟩
    rw [heq]
    split_ifs with hdrop
    · obtain ⟨h, hpruned⟩ := Bool.and_eq_true_iff.mp hdrop
      refine ⟨by simp, ?_⟩
      rw [map_none, getD_none, hfresh h, unspent?_eq_none.mpr hpruned]
    · refine ⟨?_, rfl⟩
      rintro u hu
      obtain rfl := some.inj hu
      exact ⟨hentry.clean, hentry.usage, fun h => absurd h (by simp), hfresh⟩
  · unfold CCoinsCacheEntry.writeTo
    rw [if_neg hdirty]
    exact ⟨hitUs, by rw [← hbelow, hentry.same (by simpa using hdirty)]⟩

lemma shown_eq (cache : CoinsCache) (below : CCoinsViewCache) (txid : Uint256) :
    cache.shown below txid =
      ((cache.cacheCoins.lookup txid).map fun u => u.coins.unspent?).getD
        (below.accessCoins txid) := by
  unfold shown
  cases cache.cacheCoins.lookup txid <;> rfl

/-- The entry a cache ends with after another one was written to it. -/
lemma lookup_foldl_writeEntry (hlists : Lists mapCoins cache.cacheCoins) (base : CoinsCache)
    (txid : Uint256) :
    (mapCoins.foldl CoinsCache.writeEntry base).cacheCoins.lookup txid =
      match cache.cacheCoins.lookup txid with
      | some entry => entry.writeTo (base.cacheCoins.lookup txid)
      | none => base.cacheCoins.lookup txid := by
  let look (s : CoinsCache) (txid : Uint256) := s.cacheCoins.lookup txid
  cases hlookup : cache.cacheCoins.lookup txid with
  | none =>
    exact lookup_foldl_of_notMem look writeEntry_lookup_of_ne (hlists.notMem hlookup)
  | some entry =>
    exact lookup_foldl_of_mem look writeEntry_lookup_self writeEntry_lookup_of_ne
      hlists.nodup ((hlists.mem txid entry).mpr hlookup)

/-- After a cache was written to the one below it, that one shows what the upper one showed. -/
lemma Over.written (h : cache.Over fSet below top) {base : CoinsCache}
    (hbase : base.Over fSet below' below)
    (hlists : Lists mapCoins cache.cacheCoins)
    (hbest : cache.hashBlock = 0 → below.hashBlock = below'.hashBlock) :
    CoinsCache.Over fSet
      { mapCoins.foldl CoinsCache.writeEntry base with hashBlock := cache.hashBlock }
      below' top := by
  have hspec : ∀ txid, (∀ u, (mapCoins.foldl CoinsCache.writeEntry base).cacheCoins.lookup txid =
      some u → u.Over below' txid) ∧
      top.accessCoins txid = (mapCoins.foldl CoinsCache.writeEntry base).shown below' txid := by
    intro txid
    have hbelow := hbase.shown txid
    rw [shown_eq] at hbelow
    rw [shown_eq, lookup_foldl_writeEntry hlists]
    cases hlookup : cache.cacheCoins.lookup txid with
    | none =>
      refine ⟨hbase.entries txid, ?_⟩
      rw [h.shown, shown_of_none hlookup, hbelow]
    | some entry =>
      obtain ⟨hover, hshown⟩ := writeTo_spec (h.entries txid entry hlookup) (hbase.entries txid)
        hbelow
      exact ⟨hover, by rw [h.shown, shown_of_lookup hlookup, hshown]⟩
  refine ⟨fun txid => (hspec txid).1, fun txid => (hspec txid).2,
    hbase.usage.foldl_writeEntry mapCoins, ?_, fun hset => ?_⟩
  · rw [h.best]
    split_ifs with hzero
    · exact hbest hzero
    · rfl
  · rw [h.settled hset, hbase.settled hset]

end CoinsCache

/-! ## The database -/

namespace CCoinsViewDB

variable {fSet : Bool} {cache : CoinsCache} {top : CCoinsViewCache}

section

variable (store : CCoinsViewDB)

def contents : CCoinsViewCache := ⟨store.coins, store.bestBlock⟩

lemma writeEntry_lookup_self (txid : Uint256) (entry : CCoinsCacheEntry) :
    (store.writeEntry (txid, entry)).coins.lookup txid =
      if entry.dirty then entry.coins.cleanup.unspent? else store.coins.lookup txid := by
  unfold writeEntry
  dsimp only
  split_ifs with hdirty hunspent
  · exact (Finmap.lookup_insert _).trans (by simp [unspent?, isPruned_cleanup, hunspent])
  · exact (Finmap.lookup_erase _ _).trans (by simp [unspent?, isPruned_cleanup, hunspent])
  · rfl

lemma writeEntry_lookup_of_ne (written : Uint256 × CCoinsCacheEntry)
    (txid : Uint256) (hne : txid ≠ written.1) :
    (store.writeEntry written).coins.lookup txid = store.coins.lookup txid := by
  unfold writeEntry
  dsimp only
  split_ifs
  · exact Finmap.lookup_insert_of_ne _ hne
  · exact Finmap.lookup_erase_ne hne
  · rfl

lemma foldl_writeEntry_bestBlock (mapCoins : List (Uint256 × CCoinsCacheEntry)) :
    (mapCoins.foldl writeEntry store).bestBlock = store.bestBlock := by
  induction mapCoins generalizing store with
  | nil => rfl
  | cons written mapCoins ih =>
    rw [foldl_cons, ih]
    unfold writeEntry
    dsimp only
    split_ifs <;> rfl

end

/-- After a cache was written to the database, that holds what the cache showed. -/
lemma written {store : CCoinsViewDB} (h : cache.Over fSet store.contents top)
    {mapCoins : List (Uint256 × CCoinsCacheEntry)} (hlists : Lists mapCoins cache.cacheCoins) :
    (mapCoins.foldl writeEntry store).coins = top.cacheCoins := by
  let look (store : CCoinsViewDB) (txid : Uint256) := store.coins.lookup txid
  refine Finmap.ext_lookup fun txid => ?_
  change look _ txid = top.accessCoins txid
  rw [h.shown]
  cases hlookup : cache.cacheCoins.lookup txid with
  | none =>
    rw [shown_of_none hlookup]
    exact lookup_foldl_of_notMem look writeEntry_lookup_of_ne (hlists.notMem hlookup)
  | some entry =>
    have hover := h.entries txid entry hlookup
    rw [shown_of_lookup hlookup, lookup_foldl_of_mem look writeEntry_lookup_self
      writeEntry_lookup_of_ne hlists.nodup ((hlists.mem txid entry).mpr hlookup),
      cleanup_eq_self hover.clean]
    split_ifs with hdirty
    · rfl
    · exact (hover.same (by simpa using hdirty)).symm

end CCoinsViewDB

/-! ## Stacks -/

/-- A stack of caches shows a stack of maps. -/
def CoinsView.Layered (fSet : Bool) : CoinsView → List CCoinsViewCache → Prop
  | .db store, levels => levels = [store.contents]
  | .cache top base, levels => ∃ shown below rest, levels = shown :: below :: rest ∧
      top.Over fSet below shown ∧ base.Layered fSet (below :: rest)

namespace CoinsView

variable {alloc : CCoins → Nat} {fSet : Bool} {view base : CoinsView} {top : CoinsCache}
variable {levels rest : List CCoinsViewCache} {shown below : CCoinsViewCache}

lemma Layered.ne_nil (h : view.Layered fSet levels) : ∃ shown rest, levels = shown :: rest := by
  cases view with
  | db store => exact ⟨store.contents, [], h⟩
  | cache top base =>
    obtain ⟨shown, below, rest, rfl, -⟩ := h
    exact ⟨shown, below :: rest, rfl⟩

lemma Layered.cache (htop : top.Over fSet below shown) (hbase : base.Layered fSet (below :: rest)) :
    (CoinsView.cache top base).Layered fSet (shown :: below :: rest) :=
  ⟨shown, below, rest, rfl, htop, hbase⟩

section

variable (h : view.Layered fSet (shown :: rest)) (alloc : CCoins → Nat) (txid : Uint256)
include h

/-- Reading leaves everything as it was shown, and gives what is shown. -/
lemma Layered.getCoins :
    (view.getCoins alloc txid).2.Layered fSet (shown :: rest) ∧
      (view.getCoins alloc txid).1.bind CCoins.unspent? = shown.accessCoins txid ∧
      ∀ coins, (view.getCoins alloc txid).1 = some coins → coins.Clean := by
  induction view generalizing shown rest with
  | db store =>
    obtain ⟨rfl, rfl⟩ := cons.inj h
    refine ⟨rfl, ?_, fun coins hcoins => (store.unspent txid coins hcoins).1⟩
    change (store.coins.lookup txid).bind unspent? = store.coins.lookup txid
    cases hlookup : store.coins.lookup txid with
    | none => rfl
    | some coins => simp [unspent?, (store.unspent txid coins hlookup).2]
  | cache top base ih =>
    obtain ⟨shown', below, rest', heq, htop, hbase⟩ := h
    obtain ⟨rfl, rfl⟩ := cons.inj heq
    unfold CoinsView.getCoins
    cases hlookup : top.cacheCoins.lookup txid with
    | some entry =>
      refine ⟨.cache htop hbase, ?_, ?_⟩
      · rw [htop.shown, shown_of_lookup hlookup, bind_some]
      · rintro coins hcoins
        obtain rfl := some.inj hcoins
        exact (htop.entries txid entry hlookup).clean
    | none =>
      obtain ⟨hbase', hread, hclean⟩ := ih hbase
      rcases hget : base.getCoins alloc txid with ⟨_ | tmp, base'⟩
      · rw [hget] at hbase' hread
        refine ⟨.cache htop hbase', ?_, by simp⟩
        rw [htop.shown, shown_of_none hlookup, ← hread]
      · rw [hget] at hbase' hread hclean
        refine ⟨.cache (htop.fetched alloc hlookup (hclean tmp rfl) hread) hbase', ?_, hclean⟩
        rw [htop.shown, shown_of_none hlookup, ← hread]

lemma Layered.haveCoins :
    (view.haveCoins alloc txid).2.Layered fSet (shown :: rest) ∧
      (view.haveCoins alloc txid).1 = (shown.accessCoins txid).isSome := by
  obtain ⟨hview, hread, hclean⟩ := h.getCoins alloc txid
  refine ⟨hview, ?_⟩
  change ((view.getCoins alloc txid).1.any fun coins => !coins.vout.isEmpty) = _
  rw [← hread]
  cases hget : (view.getCoins alloc txid).1 with
  | none => rfl
  | some coins =>
    have hempty := isPruned_iff (hclean coins hget)
    cases hpruned : coins.isPruned with
    | true => simp [unspent?, hpruned, hempty.mp hpruned]
    | false =>
      simpa [unspent?, hpruned] using hempty

end

lemma Layered.getBestBlock (h : view.Layered fSet (shown :: rest)) :
    view.getBestBlock.2.Layered fSet (shown :: rest) ∧ view.getBestBlock.1 = shown.hashBlock := by
  induction view generalizing shown rest with
  | db store =>
    obtain ⟨rfl, rfl⟩ := cons.inj h
    exact ⟨rfl, rfl⟩
  | cache top base ih =>
    obtain ⟨shown', below, rest', heq, htop, hbase⟩ := h
    obtain ⟨rfl, rfl⟩ := cons.inj heq
    obtain ⟨hbase', hbest'⟩ := ih hbase
    have hbest := htop.best
    unfold CoinsView.getBestBlock
    split_ifs at hbest ⊢ with hzero
    · refine ⟨.cache ⟨htop.entries, htop.shown, htop.usage, ?_, htop.settled⟩ hbase', ?_⟩
      · rw [hbest', hbest, ite_self]
      · rw [hbest', hbest]
    · exact ⟨.cache htop hbase, hbest.symm⟩

/-- A flush that keeps the best block makes the view below show what the cache showed. -/
lemma Layered.batchWrite (htop : top.Over fSet below shown)
    (hbase : base.Layered fSet (below :: rest)) {mapCoins : List (Uint256 × CCoinsCacheEntry)}
    (hlists : Lists mapCoins top.cacheCoins) (hbest : fSet = true → KeepsBest top base) :
    (base.batchWrite mapCoins top.hashBlock).Layered fSet (shown :: rest) := by
  cases base with
  | db store =>
    obtain ⟨rfl, rfl⟩ := cons.inj hbase
    have hcoins := CCoinsViewDB.written htop hlists
    have hblock := htop.best
    refine congrArg (fun shown => [shown]) ?_
    split_ifs at hblock ⊢ with hzero
    · rw [CCoinsViewDB.contents, ← store.foldl_writeEntry_bestBlock mapCoins] at hblock
      exact congrArg₂ CCoinsViewCache.mk hcoins.symm hblock
    · exact congrArg₂ CCoinsViewCache.mk hcoins.symm hblock
  | cache top' base' =>
    obtain ⟨below₁, below', rest', heq, htop', hbase'⟩ := hbase
    obtain ⟨rfl, rfl⟩ := cons.inj heq
    refine .cache (htop.written htop' hlists fun hzero => ?_) hbase'
    cases fSet with
    | false => exact htop'.settled rfl
    | true =>
      have hbase : (CoinsView.cache top' base').Layered true (below :: below' :: rest') :=
        .cache htop' hbase'
      have heq := (hbest rfl).resolve_left (absurd hzero)
      rwa [hbase.getBestBlock.2, CoinsView.backend, hbase'.getBestBlock.2] at heq

lemma over_empty (fSet : Bool) {hashBlock : Uint256}
    (hhash : hashBlock = 0 ∨ hashBlock = shown.hashBlock) :
    CoinsCache.Over fSet ⟨∅, hashBlock, 0⟩ shown shown where
  entries := by
    intro txid entry hlookup
    cases hlookup
  shown := fun txid => (shown_of_none (Finmap.lookup_empty _)).symm
  usage := rfl
  best := by
    rcases hhash with rfl | rfl
    · rfl
    · exact (ite_self _).symm
  settled := fun _ => rfl

/-- Every step of the caches is one of the maps. -/
lemma Layered.step {op : CoinsOp} {view' : CoinsView} (h : view.Layered fSet levels)
    (hstep : CacheStep alloc fSet op view view') :
    ∃ levels', MapStep op levels levels' ∧ view'.Layered fSet levels' := by
  cases hstep with
  | @push view =>
    obtain ⟨shown, rest, rfl⟩ := h.ne_nil
    exact ⟨_, .push, .cache (over_empty fSet (.inl rfl)) h⟩
  | @accessCoins top base txid =>
    obtain ⟨shown, rest, rfl⟩ := h.ne_nil
    exact ⟨_, .accessCoins, (h.getCoins alloc txid).1⟩
  | @haveCoins top base txid =>
    obtain ⟨shown, rest, rfl⟩ := h.ne_nil
    exact ⟨_, .haveCoins, (h.haveCoins alloc txid).1⟩
  | getBestBlock =>
    obtain ⟨shown, rest, rfl⟩ := h.ne_nil
    exact ⟨_, .getBestBlock, h.getBestBlock.1⟩
  | @modifyCoins top base txid change nAllocated =>
    obtain ⟨shown, below, rest, rfl, htop, hbase⟩ := h
    unfold CoinsView.modifyCoins
    cases hlookup : top.cacheCoins.lookup txid with
    | some entry =>
      refine ⟨_, .modifyCoins ?_, .cache (htop.modified change nAllocated rfl
        (htop.entries txid entry hlookup).fresh (measureAt_of_lookup hlookup)) hbase⟩
      rw [htop.shown, shown_of_lookup hlookup]
    | none =>
      obtain ⟨hbase', hread, -⟩ := hbase.getCoins alloc txid
      have hshown := htop.shown txid
      rw [shown_of_none hlookup, ← hread] at hshown
      rcases hget : base.getCoins alloc txid with ⟨_ | coins, base'⟩ <;>
        rw [hget] at hbase' hread hshown
      · exact ⟨_, .modifyCoins (hshown ▸ rfl), .cache (htop.modified change nAllocated rfl
          (fun _ => hread.symm) (measureAt_of_none hlookup)) hbase'⟩
      · exact ⟨_, .modifyCoins (hshown ▸ rfl), .cache (htop.modified change nAllocated rfl
          (fun hpruned => hread ▸ unspent?_eq_none.mpr hpruned) (measureAt_of_none hlookup)) hbase'⟩
  | @modifyNewCoins top base txid coinbase change nAllocated hspent hbelow =>
    have htopRead := fun shown rest (h : (CoinsView.cache top base).Layered fSet (shown :: rest)) =>
      (h.getCoins alloc txid).2.1
    obtain ⟨shown, below, rest, rfl, htop, hbase⟩ := h
    refine ⟨_, .modifyNewCoins,
      .cache (htop.modifyNewCoins change nAllocated ?_ fun hcoinbase => ?_) hbase⟩
    · rw [← htopRead shown (below :: rest) (.cache htop hbase), hspent]
    · rw [← (hbase.getCoins alloc txid).2.1, hbelow hcoinbase]
  | uncache =>
    obtain ⟨shown, below, rest, rfl, htop, hbase⟩ := h
    exact ⟨_, .uncache, .cache (htop.uncache _) hbase⟩
  | @flush top base mapCoins hlists hbest =>
    obtain ⟨shown, below, rest, rfl, htop, hbase⟩ := h
    refine ⟨_, .flush, .cache (over_empty fSet ?_) (.batchWrite htop hbase hlists hbest)⟩
    have hblock := htop.best
    split_ifs at hblock with hzero
    · exact .inl hzero
    · exact .inr hblock.symm
  | pop =>
    obtain ⟨shown, below, rest, rfl, htop, hbase⟩ := h
    exact ⟨_, .pop, hbase⟩
  | setBestBlock hset hne =>
    obtain ⟨shown, below, rest, rfl, htop, hbase⟩ := h
    refine ⟨_, .setBestBlock, .cache ⟨htop.entries, htop.shown, htop.usage, ?_, ?_⟩ hbase⟩
    · exact (if_neg hne).symm
    · intro hunset
      rw [hset] at hunset
      cases hunset

/-- Flushing all levels brings what the top shows into the database. -/
lemma Layered.flushedAll {store : CCoinsViewDB} (h : view.Layered fSet (shown :: rest))
    (hflushed : FlushedAll fSet view store) : store.contents = shown := by
  induction hflushed generalizing shown rest with
  | db => exact (cons.inj h).1.symm
  | cache hlists hbest _ ih =>
    obtain ⟨shown', below, rest', heq, htop, hbase⟩ := h
    obtain ⟨rfl, rfl⟩ := cons.inj heq
    exact ih (.batchWrite htop hbase hlists hbest)

def UsageExact : CoinsView → Prop
  | db _ => True
  | cache top base => top.UsageExact ∧ base.UsageExact

lemma Layered.usageExact (h : view.Layered fSet levels) : view.UsageExact := by
  induction view generalizing levels with
  | db => trivial
  | cache top base ih =>
    obtain ⟨shown, below, rest, rfl, htop, hbase⟩ := h
    exact ⟨htop.usage, ih hbase⟩

end CoinsView

def toyFreshEntry : CCoinsCacheEntry where
  coins := ⟨false, false, [⟨1000, [0x51]⟩], 1, 1, 1700000000⟩
  nUsage := 48
  dirty := true
  fresh := true

lemma lists_singleton (txid : Uint256) (entry : CCoinsCacheEntry) :
    Lists [(txid, entry)] ((∅ : Finmap fun _ : Uint256 => CCoinsCacheEntry).insert txid entry) := by
  refine ⟨by simp, fun txid' entry' => ?_⟩
  by_cases heq : txid' = txid
  · subst heq
    simp [eq_comm]
  · rw [Finmap.lookup_insert_of_ne _ heq]
    simp [heq]

def toyRecord : CCoins := ⟨false, false, [⟨1000, [0x51]⟩], 5, 1, 1700000000⟩

lemma toyRecord_unspent (txid : Uint256) (record : CCoins)
    (h : ((∅ : Finmap fun _ : Uint256 => CCoins).insert 7 toyRecord).lookup txid = some record) :
    record.Clean ∧ record.isPruned = false := by
  rcases lookup_insert_cases h with ⟨-, rfl⟩ | ⟨-, h⟩
  · exact ⟨by simp [Clean, toyRecord, CTxOut.isNull], by decide⟩
  · cases h

def toyRecordStore : CCoinsViewDB :=
  ⟨(∅ : Finmap fun _ : Uint256 => CCoins).insert 7 toyRecord, 0, toyRecord_unspent⟩

end Jumpcoin
