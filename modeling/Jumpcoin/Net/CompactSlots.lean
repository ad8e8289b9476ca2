import Jumpcoin.Mempool.TxHashes
import Jumpcoin.Net.CompactBlock
import Jumpcoin.Validation.ConnectBlock

/-!
# The places in a compact block

Where `InitData` puts the transactions sent in full, and which places it assigns to the short ids.

With the prefilled transactions in their places, the places for the short ids are those left free,
in order (`assignSlots_eq`). They are stored in 16 bits.
-/

namespace Jumpcoin

open List

namespace PartiallyDownloadedBlock

/-! ## Prefilled transactions -/

/-- The places of prefilled transactions, when the last one before them was at `next - 1`. -/
def positions : Nat → List PrefilledTransaction → List Nat
  | _, [] => []
  | next, p :: rest => (next + p.index.toNat) :: positions (next + p.index.toNat + 1) rest

/-- Every prefilled transaction is one, and it has a place within 16 bits before which there are
enough short ids to fill all places between. -/
def wellPlaced (shortCount : Nat) : Nat → Nat → List PrefilledTransaction → Bool
  | _, _, [] => true
  | i, next, p :: rest => !p.tx.isNull && decide (next + p.index.toNat ≤ 0xffff) &&
      decide (next + p.index.toNat ≤ shortCount + i) &&
      wellPlaced shortCount (i + 1) (next + p.index.toNat + 1) rest

def filled : Nat → List (Option CTransaction) → List PrefilledTransaction →
    List (Option CTransaction)
  | _, avail, [] => avail
  | next, avail, p :: rest =>
    filled (next + p.index.toNat + 1) (avail.set (next + p.index.toNat) (some p.tx)) rest

variable {avail : List (Option CTransaction)} {ps : List PrefilledTransaction}
  {next shortCount i : Nat}

lemma placePrefilled_eq (hlen : avail.length = shortCount + (i + ps.length)) :
    placePrefilled shortCount i next avail ps =
      if wellPlaced shortCount i next ps then pure (filled next avail ps) else throw .invalid := by
  induction ps generalizing i next avail with
  | nil => rfl
  | cons p rest ih =>
    rw [length_cons] at hlen
    have hset : (avail.set (next + p.index.toNat) (some p.tx)).length =
        shortCount + (i + 1 + rest.length) := by
      rw [length_set]
      omega
    simp only [placePrefilled, wellPlaced, filled, ih hset]
    by_cases hnull : p.tx.isNull = true
    · simp [hnull]
    by_cases h16 : next + p.index.toNat ≤ 0xffff
    · by_cases hshort : next + p.index.toNat ≤ shortCount + i
      · rw [if_neg hnull, if_neg (not_lt.mpr h16), if_neg (not_lt.mpr hshort), if_pos (by omega)]
        simp [hnull, h16, hshort]
      · simp [hnull, hshort, not_le.mp hshort]
    · simp [hnull, h16, not_le.mp h16]

lemma length_filled (next : Nat) (avail : List (Option CTransaction))
    (ps : List PrefilledTransaction) : (filled next avail ps).length = avail.length := by
  induction ps generalizing next avail with
  | nil => rfl
  | cons p rest ih => rw [filled, ih, length_set]

variable {q : Nat}

lemma le_of_mem_positions (h : q ∈ positions next ps) : next ≤ q := by
  induction ps generalizing next with
  | nil => simp [positions] at h
  | cons p rest ih =>
    rcases mem_cons.mp h with rfl | h
    · omega
    · have := ih h
      omega

lemma positions_pairwise (next : Nat) (ps : List PrefilledTransaction) :
    (positions next ps).Pairwise (· < ·) := by
  induction ps generalizing next with
  | nil => exact .nil
  | cons p rest ih =>
    exact .cons (fun q hq => le_of_mem_positions hq) (ih _)

@[simp] lemma length_positions (next : Nat) (ps : List PrefilledTransaction) :
    (positions next ps).length = ps.length := by
  induction ps generalizing next with
  | nil => rfl
  | cons p rest ih => rw [positions, length_cons, ih, length_cons]

/-- The places in which there is a transaction now. -/
lemma isSome_filled (hq : q < avail.length) :
    (∃ tx, (filled next avail ps)[q]? = some (some tx)) ↔
      q ∈ positions next ps ∨ ∃ tx, avail[q]? = some (some tx) := by
  induction ps generalizing next avail with
  | nil => simp [filled, positions]
  | cons p rest ih =>
    rw [filled, ih (by rwa [length_set]), positions, mem_cons, getElem?_set]
    by_cases heq : next + p.index.toNat = q
    · simp [heq, hq]
    · simp [heq, Ne.symm heq]

/-! ## Places for the short ids -/

def freeFrom : Nat → List (Option CTransaction) → List Nat
  | _, [] => []
  | q, none :: avail => q :: freeFrom (q + 1) avail
  | q, some _ :: avail => freeFrom (q + 1) avail

variable {r : Nat}

lemma mem_freeFrom : r ∈ freeFrom q avail ↔ q ≤ r ∧ avail[r - q]? = some none := by
  induction avail generalizing q with
  | nil => simp [freeFrom]
  | cons a avail ih =>
    have hshift (h : q < r) : (a :: avail)[r - q]? = avail[r - (q + 1)]? := by
      rw [show r - q = r - (q + 1) + 1 by omega, getElem?_cons_succ]
    rcases Nat.lt_trichotomy r q with hlt | rfl | hgt
    · cases a <;> simp [freeFrom, ih] <;> omega
    · cases a <;> simp [freeFrom, ih]
    · cases a <;> simp [freeFrom, ih] <;> grind

lemma freeFrom_pairwise (q : Nat) (avail : List (Option CTransaction)) :
    (freeFrom q avail).Pairwise (· < ·) := by
  induction avail generalizing q with
  | nil => exact .nil
  | cons a avail ih =>
    cases a with
    | none => exact .cons (fun r hr => (mem_freeFrom.mp hr).1) (ih _)
    | some tx => exact ih _

def taken (avail : List (Option CTransaction)) : Nat := avail.countP Option.isSome

lemma length_freeFrom (q : Nat) (avail : List (Option CTransaction)) :
    (freeFrom q avail).length + taken avail = avail.length := by
  induction avail generalizing q with
  | nil => rfl
  | cons a avail ih =>
    have := ih (q + 1)
    cases a <;> simp [freeFrom, taken] at this ⊢ <;> omega

/-- What comes before and after the next free place. -/
structure NextFree (avail : List (Option CTransaction)) (q r : Nat) (more : List Nat) : Prop where
  le : q ≤ r
  before : ∀ j, q ≤ j → j < r → ∃ tx, avail[j]? = some (some tx)
  free : avail[r]? = some none
  after : freeFrom (r + 1) (avail.drop (r + 1)) = more
  taken_eq : taken (avail.drop (r + 1)) + (r - q) = taken (avail.drop q)

lemma nextFree {more : List Nat} (h : freeFrom q (avail.drop q) = r :: more) :
    NextFree avail q r more := by
  induction hd : avail.length - q generalizing q with
  | zero =>
    rw [drop_eq_nil_of_le (by omega)] at h
    cases h
  | succ d ih =>
    have hlt : q < avail.length := by omega
    have hget : avail[q]? = some avail[q] := getElem?_eq_getElem hlt
    rw [drop_eq_getElem_cons hlt] at h
    cases ha : avail[q] with
    | none =>
      rw [ha, freeFrom] at h
      obtain ⟨rfl, hmore⟩ := cons.inj h
      refine ⟨le_rfl, fun j _ _ => by omega, by rw [hget, ha], hmore, ?_⟩
      simp [taken, drop_eq_getElem_cons hlt, ha]
    | some tx =>
      rw [ha, freeFrom] at h
      obtain ⟨hle, hbefore, hfree, hafter, htaken⟩ := ih h (by omega)
      refine ⟨by omega, fun j hj hjr => ?_, hfree, hafter, ?_⟩
      · rcases Nat.eq_or_lt_of_le hj with rfl | hj
        · exact ⟨tx, by rw [hget, ha]⟩
        · exact hbefore j hj hjr
      · have hcons : taken (avail.drop q) = taken (avail.drop (q + 1)) + 1 := by
          simp [taken, drop_eq_getElem_cons hlt, ha]
        omega

variable {offset : UInt16} {turns : Nat}

/-- The next free place is found if all offsets up to it fit into 16 bits. -/
lemma skipAvailable_eq (hle : q ≤ r)
    (hbefore : ∀ j, q ≤ j → j < r → ∃ tx, avail[j]? = some (some tx))
    (hfree : avail[r]? = some none) (hq : i + offset.toNat = q) (hfits : r < i + 2 ^ 16)
    (hturns : r < q + turns) :
    ∃ offset', skipAvailable avail i turns offset = pure offset' ∧ i + offset'.toNat = r := by
  induction turns generalizing q offset with
  | zero => omega
  | succ turns ih =>
    rcases Nat.eq_or_lt_of_le hle with rfl | hlt
    · refine ⟨offset, ?_, hq⟩
      rw [skipAvailable, hq, hfree]
    · obtain ⟨tx, htx⟩ := hbefore q le_rfl hlt
      have hnext : (offset + 1).toNat = offset.toNat + 1 := by
        exact Nat.mod_eq_of_lt (by simp; omega)
      rw [skipAvailable, hq, htx]
      exact ih hlt (fun j hj => hbefore j (by omega)) (by omega) (by omega)

/-- If no offset leads to a free place, the search does not end. -/
lemma skipAvailable_none (h : ∀ offset : UInt16, ∃ tx, avail[i + offset.toNat]? = some (some tx)) :
    skipAvailable avail i turns offset = undefinedRead := by
  induction turns generalizing offset with
  | zero => rfl
  | succ turns ih =>
    obtain ⟨tx, htx⟩ := h offset
    rw [skipAvailable, htx]
    exact ih

def crowded (bucketSize : BucketSize) (shortCount : Nat) : List UInt64 → List UInt64 → Bool
  | _, [] => false
  | done, id :: rest => decide (12 < bucketSize shortCount (done ++ [id]) id) ||
      crowded bucketSize shortCount (done ++ [id]) rest

def setSlots : List (UInt64 × UInt16) → List UInt64 → List Nat → List (UInt64 × UInt16)
  | slots, id :: ids, r :: places => setSlots (setSlot slots id (UInt16.ofNat r)) ids places
  | slots, _, _ => slots

variable {ids : List UInt64} {slots : List (UInt64 × UInt16)}

/-- The short ids get the free places, in order, unless a bucket gets too many of them. -/
lemma assignSlots_eq {bucketSize : BucketSize} {done : List UInt64}
    (hq : done.length + offset.toNat = q) (hcount : ids.length ≤ (freeFrom q (avail.drop q)).length)
    (htaken : offset.toNat + taken (avail.drop q) ≤ 0xffff) :
    assignSlots bucketSize avail shortCount done offset slots ids =
      if crowded bucketSize shortCount done ids then throw .failed
      else pure (setSlots slots ids (freeFrom q (avail.drop q))) := by
  induction ids generalizing done offset slots q with
  | nil => simp [assignSlots, crowded, setSlots]
  | cons id rest ih =>
    cases hfree : freeFrom q (avail.drop q) with
    | nil => simp [hfree] at hcount
    | cons r more =>
      have hnext := nextFree hfree
      have hle := hnext.le
      have htaken' := hnext.taken_eq
      obtain ⟨offset', hskip, hr⟩ := skipAvailable_eq hle hnext.before hnext.free hq
        (by omega) (by omega : r < q + 2 ^ 16)
      have hq' : (done ++ [id]).length + offset'.toNat = r + 1 := by
        simp only [length_append, length_singleton]
        omega
      have hcount' : rest.length ≤ (freeFrom (r + 1) (avail.drop (r + 1))).length := by
        rw [hnext.after]
        simpa [hfree] using hcount
      have hrest : assignSlots bucketSize avail shortCount (done ++ [id]) offset'
          (setSlot slots id (UInt16.ofNat r)) rest = _ := ih hq' hcount' (by omega)
      simp only [assignSlots, hskip, pure_bind, hr, hrest, hnext.after, crowded, setSlots]
      by_cases hbucket : 12 < bucketSize shortCount (done ++ [id]) id
      · simp [hbucket]
      · simp [hbucket]

/-! ### The map -/

variable {key id : UInt64}

lemma lookup_filter_ne (h : key ≠ id) :
    (slots.filter fun s => s.1 ≠ id).lookup key = slots.lookup key := by
  induction slots with
  | nil => rfl
  | cons s slots ih =>
    obtain ⟨id', slot⟩ := s
    by_cases hid : id' = id
    · subst hid
      have hne : (key == id') = false := by simpa using h
      simpa [lookup_cons, hne] using ih
    · simp only [ne_eq, hid, not_false_eq_true, decide_true, filter_cons_of_pos,
        lookup_cons]
      rw [← ih]

lemma lookup_setSlot (slots : List (UInt64 × UInt16)) (id key : UInt64) (slot : UInt16) :
    (setSlot slots id slot).lookup key = if key = id then some slot else slots.lookup key := by
  rw [setSlot, lookup_cons]
  by_cases h : key = id
  · simp [h]
  · have hne : (key == id) = false := by simpa using h
    simp only [hne, h, if_false]
    exact lookup_filter_ne h

variable {places : List Nat}

lemma lookup_setSlots_of_notMem (h : key ∉ ids) :
    (setSlots slots ids places).lookup key = slots.lookup key := by
  induction ids generalizing slots places with
  | nil => rfl
  | cons id ids ih =>
    cases places with
    | nil => rfl
    | cons r places =>
      rw [mem_cons, not_or] at h
      rw [setSlots, ih h.2, lookup_setSlot, if_neg h.1]

/-- Different short ids keep the places they got. -/
lemma lookup_setSlots (hnodup : ids.Nodup) {k : Nat} (hid : ids[k]? = some id)
    (hr : places[k]? = some r) : (setSlots slots ids places).lookup id = some (UInt16.ofNat r) := by
  induction ids generalizing slots places k with
  | nil => simp at hid
  | cons id' ids ih =>
    cases places with
    | nil => simp at hr
    | cons r' places =>
      rw [nodup_cons] at hnodup
      rw [setSlots]
      cases k with
      | zero =>
        simp only [getElem?_cons_zero, Option.some.injEq] at hid hr
        subst hid hr
        rw [lookup_setSlots_of_notMem hnodup.1, lookup_setSlot, if_pos rfl]
      | succ k => exact ih hnodup.2 hid hr

variable {slot : UInt16}

lemma keys_setSlots (hlen : ids.length ≤ places.length) (hnodup : (slots.map Prod.fst).Nodup) :
    ((setSlots slots ids places).map Prod.fst).Nodup ∧
      ∀ key, key ∈ (setSlots slots ids places).map Prod.fst ↔
        key ∈ ids ∨ key ∈ slots.map Prod.fst := by
  induction ids generalizing slots places with
  | nil => exact ⟨hnodup, fun key => by simp [setSlots]⟩
  | cons id ids ih =>
    cases places with
    | nil => simp at hlen
    | cons r places =>
      have hnodup' : ((setSlot slots id (UInt16.ofNat r)).map Prod.fst).Nodup := by
        rw [setSlot, map_cons, nodup_cons]
        exact ⟨by simp, hnodup.sublist (filter_sublist.map _)⟩
      obtain ⟨hkeys, hmem⟩ := ih (Nat.le_of_succ_le_succ hlen) hnodup'
      refine ⟨hkeys, fun key => ?_⟩
      rw [setSlots, hmem, mem_cons]
      by_cases hkey : key = id <;> simp [setSlot, hkey]

/-- The map has as many elements as there are short ids exactly when these are different. -/
lemma length_setSlots_iff (hlen : ids.length ≤ places.length) :
    (setSlots [] ids places).length = ids.length ↔ ids.Nodup := by
  have hempty : (([] : List (UInt64 × UInt16)).map Prod.fst).Nodup := nodup_nil
  obtain ⟨hkeys, hmem⟩ := keys_setSlots hlen hempty
  have hset : ((setSlots [] ids places).map Prod.fst).toFinset = ids.toFinset := by
    ext key
    simpa using hmem key
  have hcard := toFinset_card_of_nodup hkeys
  rw [hset, length_map] at hcard
  rw [← hcard]
  exact Multiset.toFinset_card_eq_card_iff_nodup

lemma exists_place_of_lookup_setSlots (h : (setSlots slots ids places).lookup key = some slot) :
    (∃ r ∈ places, slot = UInt16.ofNat r) ∨ slots.lookup key = some slot := by
  induction ids generalizing slots places with
  | nil => exact .inr h
  | cons id ids ih =>
    cases places with
    | nil => exact .inr h
    | cons r places =>
      rcases ih h with ⟨r', hr', hslot⟩ | hlookup
      · exact .inl ⟨r', mem_cons_of_mem _ hr', hslot⟩
      · rw [lookup_setSlot] at hlookup
        split_ifs at hlookup
        · exact .inl ⟨r, mem_cons_self, (Option.some.inj hlookup).symm⟩
        · exact .inr hlookup

/-! ## The layout of a message -/

section Layout

variable {bucketSize : BucketSize} {cmpctblock : CBlockHeaderAndShortTxIDs}

def placesOf (cmpctblock : CBlockHeaderAndShortTxIDs) : List (Option CTransaction) :=
  filled 0 (List.replicate cmpctblock.blockTxCount none) cmpctblock.prefilledtxn

def prefilledOk (cmpctblock : CBlockHeaderAndShortTxIDs) : Bool :=
  wellPlaced cmpctblock.shorttxids.length 0 0 cmpctblock.prefilledtxn

@[simp] lemma length_placesOf : (placesOf cmpctblock).length = cmpctblock.blockTxCount := by
  simp [placesOf, length_filled]

lemma positions_bound (h : wellPlaced shortCount i next ps = true) :
    ∀ q ∈ positions next ps, q ≤ 0xffff ∧ q < shortCount + i + ps.length := by
  induction ps generalizing i next with
  | nil => simp [positions]
  | cons p rest ih =>
    simp only [wellPlaced, Bool.and_eq_true, decide_eq_true_eq] at h
    intro q hq
    rw [length_cons]
    rcases mem_cons.mp hq with rfl | hq
    · omega
    · have := ih h.2 q hq
      omega

lemma taken_filled (h : ∀ q ∈ positions next ps, avail[q]? = some none) :
    taken (filled next avail ps) = taken avail + ps.length := by
  induction ps generalizing next avail with
  | nil => rfl
  | cons p rest ih =>
    have hhead := h _ mem_cons_self
    obtain ⟨hlt, hnone⟩ := List.getElem?_eq_some_iff.mp hhead
    have hset : taken (avail.set (next + p.index.toNat) (some p.tx)) = taken avail + 1 := by
      simp [taken, List.countP_set hlt, hnone]
    rw [filled, ih, hset, length_cons]
    · omega
    · intro q hq
      have hlater := le_of_mem_positions hq
      rw [getElem?_set_ne (by omega)]
      exact h q (mem_cons_of_mem _ hq)

lemma taken_placesOf (h : prefilledOk cmpctblock = true) :
    taken (placesOf cmpctblock) = cmpctblock.prefilledtxn.length := by
  rw [placesOf, taken_filled]
  · simp [taken, countP_replicate]
  · intro q hq
    have := (positions_bound h q hq).2
    rw [getElem?_replicate, if_pos]
    simp only [CBlockHeaderAndShortTxIDs.blockTxCount]
    omega

def freePlaces (cmpctblock : CBlockHeaderAndShortTxIDs) : List Nat :=
  freeFrom 0 (placesOf cmpctblock)

lemma length_freePlaces (h : prefilledOk cmpctblock = true) :
    (freePlaces cmpctblock).length = cmpctblock.shorttxids.length := by
  have hlen := length_freeFrom 0 (placesOf cmpctblock)
  rw [taken_placesOf h, length_placesOf, CBlockHeaderAndShortTxIDs.blockTxCount] at hlen
  rw [freePlaces]
  omega

lemma exists_placesOf (hr : r < cmpctblock.blockTxCount) :
    (∃ tx, (placesOf cmpctblock)[r]? = some (some tx)) ↔
      r ∈ positions 0 cmpctblock.prefilledtxn := by
  have hlen : r < (List.replicate cmpctblock.blockTxCount (none : Option CTransaction)).length := by
    simpa using hr
  rw [placesOf, isSome_filled hlen]
  simp [getElem?_replicate]

lemma mem_freePlaces : r ∈ freePlaces cmpctblock ↔
    r < cmpctblock.blockTxCount ∧ r ∉ positions 0 cmpctblock.prefilledtxn := by
  rw [freePlaces, mem_freeFrom, Nat.sub_zero]
  by_cases hr : r < cmpctblock.blockTxCount
  · have hlen : r < (placesOf cmpctblock).length := by simpa using hr
    rw [← exists_placesOf hr, getElem?_eq_getElem hlen]
    cases (placesOf cmpctblock)[r] <;> simp [hr]
  · simp [hr]

/-- Whether the short ids of a message are assigned places at all. -/
def slotsRefused (bucketSize : BucketSize) (cmpctblock : CBlockHeaderAndShortTxIDs) : Bool :=
  crowded bucketSize cmpctblock.shorttxids.length [] cmpctblock.shorttxids ||
    !decide cmpctblock.shorttxids.Nodup

def slotsOf (cmpctblock : CBlockHeaderAndShortTxIDs) : List (UInt64 × UInt16) :=
  setSlots [] cmpctblock.shorttxids (freePlaces cmpctblock)

lemma placePrefilled_message :
    placePrefilled cmpctblock.shorttxids.length 0 0 (List.replicate cmpctblock.blockTxCount none)
        cmpctblock.prefilledtxn =
      if prefilledOk cmpctblock then pure (placesOf cmpctblock) else throw .invalid :=
  placePrefilled_eq (by simp [CBlockHeaderAndShortTxIDs.blockTxCount])

lemma layOut_of_misplaced (h : prefilledOk cmpctblock = false) :
    layOut bucketSize cmpctblock = throw .invalid := by
  simp only [layOut, placePrefilled_message, h, Bool.false_eq_true, if_false]
  rfl

/-- The layout when there are few enough prefilled transactions to be counted in 16 bits. -/
lemma layOut_eq (h : prefilledOk cmpctblock = true)
    (hcount : cmpctblock.prefilledtxn.length ≤ 0xffff) :
    layOut bucketSize cmpctblock =
      if slotsRefused bucketSize cmpctblock then throw .failed
      else pure (placesOf cmpctblock, slotsOf cmpctblock) := by
  have hfree : (freeFrom 0 ((placesOf cmpctblock).drop 0)).length = cmpctblock.shorttxids.length :=
    length_freePlaces h
  have htaken : (0 : UInt16).toNat + taken ((placesOf cmpctblock).drop 0) ≤ 0xffff := by
    rw [drop_zero, taken_placesOf h]
    simpa using hcount
  have hassign : assignSlots bucketSize (placesOf cmpctblock) cmpctblock.shorttxids.length [] 0 []
      cmpctblock.shorttxids =
      if crowded bucketSize cmpctblock.shorttxids.length [] cmpctblock.shorttxids then throw .failed
      else pure (slotsOf cmpctblock) := assignSlots_eq rfl hfree.ge htaken
  have hlen : (slotsOf cmpctblock).length = cmpctblock.shorttxids.length ↔
      cmpctblock.shorttxids.Nodup := length_setSlots_iff (length_freePlaces h).ge
  simp only [layOut, placePrefilled_message, h, if_true, pure_bind, hassign, slotsRefused]
  by_cases hcrowd : crowded bucketSize cmpctblock.shorttxids.length [] cmpctblock.shorttxids = true
  · simp only [hcrowd, if_true, Bool.true_or]
    rfl
  · rw [if_neg hcrowd, pure_bind]
    simp only [hcrowd, Bool.false_or, ne_eq, hlen]
    by_cases hnodup : cmpctblock.shorttxids.Nodup <;> simp [hnodup]

lemma positions_subset (h : prefilledOk cmpctblock = true) :
    (positions 0 cmpctblock.prefilledtxn).toFinset ⊆ Finset.range (2 ^ 16) := by
  intro q hq
  have := (positions_bound h q (mem_toFinset.mp hq)).1
  exact Finset.mem_range.mpr (by omega)

lemma card_positions :
    (positions 0 cmpctblock.prefilledtxn).toFinset.card = cmpctblock.prefilledtxn.length := by
  rw [toFinset_card_of_nodup ((positions_pairwise 0 _).imp fun hlt => hlt.ne),
    length_positions]

section

variable (h : prefilledOk cmpctblock = true)
include h

/-- With 2^16 prefilled transactions every place within 16 bits is taken. -/
lemma mem_positions_of_full (hcount : 0xffff < cmpctblock.prefilledtxn.length) (hq : q ≤ 0xffff) :
    q ∈ positions 0 cmpctblock.prefilledtxn := by
  have hcard : (Finset.range (2 ^ 16)).card ≤
      (positions 0 cmpctblock.prefilledtxn).toFinset.card := by
    rw [card_positions, Finset.card_range]
    omega
  have hmem : q ∈ (positions 0 cmpctblock.prefilledtxn).toFinset := by
    rw [Finset.eq_of_subset_of_card_le (positions_subset h) hcard]
    exact Finset.mem_range.mpr (by omega)
  exact mem_toFinset.mp hmem

/-- No place is found for the first short id then: the search does not end. -/
lemma layOut_undefined (hcount : 0xffff < cmpctblock.prefilledtxn.length)
    (hids : cmpctblock.shorttxids ≠ []) : layOut bucketSize cmpctblock = undefinedRead := by
  obtain ⟨id, rest, hcons⟩ := exists_cons_of_ne_nil hids
  have hskip : skipAvailable (placesOf cmpctblock) 0 (2 ^ 16) 0 = undefinedRead := by
    refine skipAvailable_none fun offset => ?_
    have hlt := offset.toNat_lt
    have hmem := mem_positions_of_full h hcount (by omega : 0 + offset.toNat ≤ 0xffff)
    refine (exists_placesOf ?_).mpr hmem
    simp only [CBlockHeaderAndShortTxIDs.blockTxCount]
    omega
  have hassign : assignSlots bucketSize (placesOf cmpctblock) cmpctblock.shorttxids.length [] 0 []
      cmpctblock.shorttxids = undefinedRead := by
    rw [hcons]
    simp only [assignSlots, length_nil, hskip]
    rfl
  simp only [layOut, placePrefilled_message, h, if_true, pure_bind, hassign]
  rfl

lemma layOut_of_empty (hids : cmpctblock.shorttxids = []) :
    layOut bucketSize cmpctblock = pure (placesOf cmpctblock, []) := by
  have hlen : ¬([] : List (UInt64 × UInt16)).length ≠ cmpctblock.shorttxids.length := by
    simp [hids]
  have hassign : assignSlots bucketSize (placesOf cmpctblock) cmpctblock.shorttxids.length [] 0 []
      cmpctblock.shorttxids = pure [] := by rw [hids]; rfl
  simp only [layOut, placePrefilled_message, h, if_true, pure_bind, hassign, if_neg hlen]

end

/-- The places are within the block, also those that do not fit into 16 bits. -/
lemma slotsOf_lt (h : (slotsOf cmpctblock).lookup key = some slot) :
    slot.toNat < cmpctblock.blockTxCount := by
  rcases exists_place_of_lookup_setSlots h with ⟨r, hr, rfl⟩ | h
  · exact (Nat.mod_le _ _).trans_lt (mem_freePlaces.mp hr).1
  · cases h

end Layout

/-! ## The scan of the pool -/

section Scan

variable {shortid : Uint256 → UInt64} {pool : CTxMemPool} {s : Scan}

/-- A scan returns and keeps what every match keeps. -/
lemma scanPool_returns {I : Scan → Prop} {listed : List (Uint256 × Nat)}
    (hstep : ∀ p ∈ listed, ∀ slot s, slots.lookup (shortid p.1) = some slot → I s →
      ∃ s', scanMatch pool p.2 slot.toNat s = pure s' ∧ I s') (hs : I s) :
    ∃ s', scanPool shortid pool slots listed s = pure s' ∧ I s' := by
  induction listed generalizing s with
  | nil => exact ⟨s, rfl, hs⟩
  | cons p listed ih =>
    obtain ⟨hash, node⟩ := p
    have hrest {s : Scan} (hs : I s) := ih (fun p hp => hstep p (mem_cons_of_mem _ hp)) hs
    have hgo {s : Scan} (hs : I s) : ∃ s',
        (if s.mempool_count = slots.length then pure s
          else scanPool shortid pool slots listed s : Reading Scan) = pure s' ∧ I s' := by
      split_ifs
      · exact ⟨s, rfl, hs⟩
      · exact hrest hs
    cases hlookup : slots.lookup (shortid hash) with
    | none =>
      simp only [scanPool, hlookup, pure_bind]
      exact hgo hs
    | some slot =>
      obtain ⟨s', hmatch, hs'⟩ := hstep (hash, node) mem_cons_self slot s hlookup hs
      simp only [scanPool, hlookup, hmatch, pure_bind]
      exact hgo hs'

structure InBounds (n : Nat) (s : Scan) : Prop where
  avail : s.txn_available.length = n
  have_txn : s.have_txn.length = n

lemma scanMatch_inBounds {n node slot : Nat} {hash : Uint256}
    (hs : InBounds n s) (hslot : slot < n) (hlive : pool.Live (hash, node)) :
    ∃ s', scanMatch pool node slot s = pure s' ∧ InBounds n s' := by
  obtain ⟨e, he, href⟩ := hlive
  have hnode : e.node = node := congrArg Prod.snd href
  obtain ⟨e, hfind⟩ : ∃ e, pool.mapTx.entries.find? (fun e => e.node = node) = some e :=
    Option.isSome_iff_exists.mp (find?_isSome.mpr ⟨e, he, by simpa using hnode⟩)
  obtain ⟨b, hhave⟩ : ∃ b, s.have_txn[slot]? = some b :=
    ⟨_, getElem?_eq_getElem (hs.have_txn ▸ hslot)⟩
  obtain ⟨a, havail⟩ : ∃ a, s.txn_available[slot]? = some a :=
    ⟨_, getElem?_eq_getElem (hs.avail ▸ hslot)⟩
  unfold scanMatch
  rw [hhave]
  cases b with
  | false =>
    simp only [hfind]
    exact ⟨_, rfl, by simp [hs.avail], by simp [hs.have_txn]⟩
  | true =>
    simp only [havail]
    cases a with
    | none => exact ⟨_, rfl, hs⟩
    | some tx => exact ⟨_, rfl, by simp [hs.avail], hs.have_txn⟩

end Scan

/-! ## Safe decoding -/

/-- Every short id has its own place, in order, and none has that of a prefilled transaction. -/
structure OwnSlots (cmpctblock : CBlockHeaderAndShortTxIDs) (slots : List (UInt64 × UInt16)) :
    Prop where
  assigned : ∀ id ∈ cmpctblock.shorttxids, (slots.lookup id).isSome
  increasing : (cmpctblock.shorttxids.map fun id =>
    ((slots.lookup id).getD 0).toNat).Pairwise (· < ·)
  apart : ∀ id ∈ cmpctblock.shorttxids,
    ((slots.lookup id).getD 0).toNat ∉ positions 0 cmpctblock.prefilledtxn

/-- `InitData` returns, having used no index or iterator that is not valid, and if it succeeds every
short id has its own place. -/
def DecodesSafely (fns : ShortIdHashes) (bucketSize : BucketSize) (pool : CTxMemPool)
    (cmpctblock : CBlockHeaderAndShortTxIDs) : Prop :=
  (∃ r, initData fns bucketSize pool cmpctblock = some r) ∧
    ∀ p, initData fns bucketSize pool cmpctblock = some (.ok p) →
      ∃ avail slots, layOut bucketSize cmpctblock = some (.ok (avail, slots)) ∧
        OwnSlots cmpctblock slots

section Safe

variable {fns : ShortIdHashes} {bucketSize : BucketSize} {pool : CTxMemPool}
variable {cmpctblock : CBlockHeaderAndShortTxIDs}

def Admitted (cmpctblock : CBlockHeaderAndShortTxIDs) : Prop :=
  ¬(cmpctblock.header.nBits = 0 ∨
    (cmpctblock.shorttxids.isEmpty && cmpctblock.prefilledtxn.isEmpty)) ∧
  isTooLarge cmpctblock = false

/-- `InitData` does not get as far as the memory pool. -/
inductive Refused (bucketSize : BucketSize) (cmpctblock : CBlockHeaderAndShortTxIDs) : Prop
  | notAdmitted (h : ¬Admitted cmpctblock)
  | misplaced (h : prefilledOk cmpctblock = false)
  | slots (hcount : cmpctblock.prefilledtxn.length ≤ 0xffff)
      (h : slotsRefused bucketSize cmpctblock = true)

lemma initData_of_not_admitted (h : ¬Admitted cmpctblock) :
    initData fns bucketSize pool cmpctblock = throw .invalid := by
  unfold initData
  by_cases hnull : cmpctblock.header.nBits = 0 ∨
      (cmpctblock.shorttxids.isEmpty && cmpctblock.prefilledtxn.isEmpty)
  · rw [if_pos hnull]
  · have hlarge : isTooLarge cmpctblock = true := by
      by_contra hsmall
      exact h ⟨hnull, Bool.eq_false_iff.mpr hsmall⟩
    rw [if_neg hnull, if_pos hlarge]

lemma initData_of_admitted (h : Admitted cmpctblock) :
    initData fns bucketSize pool cmpctblock = (do
      let (avail, slots) ← layOut bucketSize cmpctblock
      let s ← scanPool (getShortID fns cmpctblock.header cmpctblock.nonce) pool slots
        pool.vTxHashes ⟨avail, List.replicate avail.length false, 0⟩
      pure ⟨s.txn_available, s.mempool_count, cmpctblock.header, cmpctblock.vchBlockSig⟩) := by
  have hlarge : ¬isTooLarge cmpctblock = true := by simp [h.2]
  rw [initData, if_neg h.1, if_neg hlarge]

/-- A message that is refused is refused safely. -/
lemma initData_of_refused (h : Refused bucketSize cmpctblock) :
    ∃ status, initData fns bucketSize pool cmpctblock = throw status := by
  by_cases hadm : Admitted cmpctblock
  · rw [initData_of_admitted hadm]
    by_cases hok : prefilledOk cmpctblock = true
    · cases h with
      | notAdmitted h => exact absurd hadm h
      | misplaced h => simp [h] at hok
      | slots hcount h =>
        rw [layOut_eq hok hcount, if_pos h]
        exact ⟨_, rfl⟩
    · rw [layOut_of_misplaced (Bool.eq_false_iff.mpr hok)]
      exact ⟨_, rfl⟩
  · exact ⟨_, initData_of_not_admitted hadm⟩

section

variable (hadm : Admitted cmpctblock)
  (hlayOut : layOut bucketSize cmpctblock = pure (placesOf cmpctblock, slots))
  (hslots : ∀ key slot, slots.lookup key = some slot → slot.toNat < cmpctblock.blockTxCount)
  (hpool : ∀ p ∈ pool.vTxHashes, pool.Live p)
include hadm hlayOut hslots hpool

/-- With all short ids in places within the block, the memory pool is searched safely. -/
lemma initData_of_layOut : ∃ p, initData fns bucketSize pool cmpctblock = pure p := by
  have hstart : InBounds cmpctblock.blockTxCount
      ⟨placesOf cmpctblock, List.replicate (placesOf cmpctblock).length false, 0⟩ :=
    ⟨length_placesOf, by simp⟩
  have hscan : ∃ s, scanPool (getShortID fns cmpctblock.header cmpctblock.nonce) pool slots
      pool.vTxHashes ⟨placesOf cmpctblock, List.replicate (placesOf cmpctblock).length false, 0⟩ =
        pure s ∧ InBounds cmpctblock.blockTxCount s :=
    scanPool_returns (fun p hp slot s hlookup hs =>
      scanMatch_inBounds hs (hslots _ _ hlookup) (hpool p hp)) hstart
  obtain ⟨s, hscan, -⟩ := hscan
  refine ⟨⟨s.txn_available, s.mempool_count, cmpctblock.header, cmpctblock.vchBlockSig⟩, ?_⟩
  simp only [initData_of_admitted hadm, hlayOut, pure_bind, hscan]

lemma decodesSafely_iff_ownSlots :
    DecodesSafely fns bucketSize pool cmpctblock ↔ OwnSlots cmpctblock slots := by
  obtain ⟨p, hp⟩ : ∃ p, initData fns bucketSize pool cmpctblock = pure p :=
    initData_of_layOut hadm hlayOut hslots hpool
  constructor
  · rintro ⟨-, h⟩
    obtain ⟨avail, slots', hlayOut', hown⟩ := h p hp
    rw [hlayOut] at hlayOut'
    cases hlayOut'
    exact hown
  · intro hown
    exact ⟨⟨_, hp⟩, fun _ _ => ⟨_, _, hlayOut, hown⟩⟩

end

/-! ### Places within 16 bits -/

section

variable (hok : prefilledOk cmpctblock = true) (hnodup : cmpctblock.shorttxids.Nodup)
include hok hnodup

omit hok in
lemma lookup_slotsOf {k : Nat} (hk : k < cmpctblock.shorttxids.length)
    (hk' : k < (freePlaces cmpctblock).length) :
    (slotsOf cmpctblock).lookup cmpctblock.shorttxids[k] =
      some (UInt16.ofNat (freePlaces cmpctblock)[k]) :=
  lookup_setSlots hnodup (getElem?_eq_getElem hk) (getElem?_eq_getElem hk')

/-- The slots, in the order of the short ids, are the free places in 16 bits. -/
lemma map_lookup_slotsOf :
    (cmpctblock.shorttxids.map fun id => (((slotsOf cmpctblock).lookup id).getD 0).toNat) =
      (freePlaces cmpctblock).map fun r => (UInt16.ofNat r).toNat := by
  have hlen := length_freePlaces hok
  refine ext_getElem (by simp [hlen]) fun k hk hk' => ?_
  rw [length_map] at hk hk'
  simp [lookup_slotsOf hnodup hk hk']

lemma isSome_lookup_slotsOf (hid : id ∈ cmpctblock.shorttxids) :
    ((slotsOf cmpctblock).lookup id).isSome := by
  obtain ⟨k, hk, rfl⟩ := getElem_of_mem hid
  have hk' : k < (freePlaces cmpctblock).length := by rwa [length_freePlaces hok]
  rw [lookup_slotsOf hnodup hk hk']
  rfl

lemma ownSlots_of_fit (hfit : cmpctblock.blockTxCount ≤ 2 ^ 16) :
    OwnSlots cmpctblock (slotsOf cmpctblock) := by
  have hexact : ((freePlaces cmpctblock).map fun r => (UInt16.ofNat r).toNat) =
      freePlaces cmpctblock := by
    refine (map_congr_left fun r hr => ?_).trans (map_id _)
    have := (mem_freePlaces.mp hr).1
    rw [UInt16.toNat_ofNat', Nat.mod_eq_of_lt (by omega)]
    rfl
  have hslots := (map_lookup_slotsOf hok hnodup).trans hexact
  refine ⟨fun id hid => isSome_lookup_slotsOf hok hnodup hid, ?_, fun id hid => ?_⟩
  · rw [hslots]
    exact freeFrom_pairwise _ _
  · have hmem := mem_map_of_mem
      (f := fun id => (((slotsOf cmpctblock).lookup id).getD 0).toNat) hid
    rw [hslots] at hmem
    exact (mem_freePlaces.mp hmem).2

/-- The place 2^16 is stored as the place 0, which is prefilled or that of another short id. -/
lemma fit_of_ownSlots (hown : OwnSlots cmpctblock (slotsOf cmpctblock)) :
    cmpctblock.blockTxCount ≤ 2 ^ 16 := by
  by_contra hlarge
  have hlast : 2 ^ 16 ∈ freePlaces cmpctblock := by
    refine mem_freePlaces.mpr ⟨by omega, fun hmem => ?_⟩
    have := (positions_bound hok _ hmem).1
    omega
  have hslots := map_lookup_slotsOf hok hnodup
  by_cases hfirst : 0 ∈ positions 0 cmpctblock.prefilledtxn
  · have hmem := mem_map_of_mem (f := fun r => (UInt16.ofNat r).toNat) hlast
    rw [← hslots] at hmem
    obtain ⟨id, hid, hzero⟩ := mem_map.mp hmem
    refine hown.apart id hid ?_
    rw [hzero]
    exact hfirst
  · have hzero : 0 ∈ freePlaces cmpctblock := mem_freePlaces.mpr ⟨by omega, hfirst⟩
    have hincreasing := hown.increasing
    rw [hslots] at hincreasing
    have hinj := inj_on_of_nodup_map (hincreasing.imp fun hlt => hlt.ne) hzero hlast rfl
    omega

end

/-- A message that is not refused is decoded safely exactly if all places fit into 16 bits. -/
lemma decodesSafely_iff_fit (h : ¬Refused bucketSize cmpctblock)
    (hpool : ∀ p ∈ pool.vTxHashes, pool.Live p) :
    DecodesSafely fns bucketSize pool cmpctblock ↔ cmpctblock.blockTxCount ≤ 2 ^ 16 := by
  have hadm : Admitted cmpctblock := not_not.mp fun hadm => h (.notAdmitted hadm)
  have hok : prefilledOk cmpctblock = true := by
    by_contra hok
    exact h (.misplaced (Bool.eq_false_iff.mpr hok))
  have hprefilled := Finset.card_le_card (positions_subset hok)
  rw [card_positions, Finset.card_range] at hprefilled
  by_cases hcount : cmpctblock.prefilledtxn.length ≤ 0xffff
  · have hslots : slotsRefused bucketSize cmpctblock = false :=
      Bool.eq_false_iff.mpr fun hslots => h (.slots hcount hslots)
    have hnodup : cmpctblock.shorttxids.Nodup := by
      simpa [slotsRefused] using (Bool.or_eq_false_iff.mp hslots).2
    have hlayOut : layOut bucketSize cmpctblock =
        pure (placesOf cmpctblock, slotsOf cmpctblock) := by
      rw [layOut_eq hok hcount, if_neg (by simp [hslots])]
    rw [decodesSafely_iff_ownSlots hadm hlayOut (fun key slot => slotsOf_lt) hpool]
    exact ⟨fit_of_ownSlots hok hnodup, ownSlots_of_fit hok hnodup⟩
  -- every place within 16 bits is prefilled
  by_cases hids : cmpctblock.shorttxids = []
  · have hlayOut : layOut bucketSize cmpctblock = pure (placesOf cmpctblock, []) :=
      layOut_of_empty hok hids
    have hown : OwnSlots cmpctblock [] := by constructor <;> simp [hids]
    have hfit : cmpctblock.blockTxCount ≤ 2 ^ 16 := by
      simpa [CBlockHeaderAndShortTxIDs.blockTxCount, hids] using hprefilled
    rw [decodesSafely_iff_ownSlots hadm hlayOut (by simp) hpool]
    exact iff_of_true hown hfit
  · have hlarge : ¬cmpctblock.blockTxCount ≤ 2 ^ 16 := by
      have := length_pos_of_ne_nil hids
      simp only [CBlockHeaderAndShortTxIDs.blockTxCount]
      omega
    refine iff_of_false ?_ hlarge
    rintro ⟨⟨r, hr⟩, -⟩
    rw [initData_of_admitted hadm, layOut_undefined hok (by omega) hids] at hr
    cases hr

/-- A message is decoded safely exactly if it is refused or has at most 2^16 transactions. -/
theorem decodesSafely_iff (hpool : ∀ p ∈ pool.vTxHashes, pool.Live p) :
    DecodesSafely fns bucketSize pool cmpctblock ↔
      Refused bucketSize cmpctblock ∨ cmpctblock.blockTxCount ≤ 2 ^ 16 := by
  by_cases h : Refused bucketSize cmpctblock
  · obtain ⟨status, hinit⟩ :
        ∃ status, initData fns bucketSize pool cmpctblock = throw status := initData_of_refused h
    refine iff_of_true ⟨⟨_, hinit⟩, fun p hp => ?_⟩ (.inl h)
    rw [hinit] at hp
    cases hp
  · rw [decodesSafely_iff_fit h hpool]
    exact ⟨.inr, fun hor => hor.resolve_left h⟩

end Safe

def paying (nValue : CAmount) : CTransaction := ⟨1, 0, [], [⟨nValue, []⟩], 0⟩

def poolOf (vtx : List CTransaction) : CTxMemPool :=
  vtx.foldl (fun pool tx => (pool.addUnchecked
    (.new toyCrypto.toHashes tx 0 0) []).getD pool) .new

def lowBytes : ShortIdHashes := ⟨fun _ => 0, fun _ _ hash => UInt64.ofNat hash.toNat⟩

/-- The second transaction is sent in full; one of the other four is in the pool. -/
def fiveTxs : CBlockHeaderAndShortTxIDs where
  header := ⟨1, 0, 0, 0, 1, 0⟩
  nonce := 0
  vchBlockSig := []
  shorttxids := 7 :: [3, 4, 5].map fun nValue => getShortID lowBytes ⟨1, 0, 0, 0, 1, 0⟩ 0
    ((paying nValue).getHash toyCrypto.toHashes)
  prefilledtxn := [⟨1, paying 2⟩]

theorem decodesSafely_fiveTxs :
    (poolOf [paying 4, paying 6]).vTxHashes.length = 2 ∧
      DecodesSafely lowBytes (fun _ _ _ => 1) (poolOf [paying 4, paying 6]) fiveTxs :=
  ⟨by decide +kernel, (decodesSafely_iff (by
    unfold CTxMemPool.Live
    decide +kernel)).mpr (.inr (by decide))⟩

/-! ### Too many short ids -/

def shortIDsBelow (n : Nat) : CBlockHeaderAndShortTxIDs where
  header := ⟨1, 0, 0, 0, 1, 0⟩
  nonce := 0
  vchBlockSig := []
  shorttxids := (List.range n).map UInt64.ofNat
  prefilledtxn := []

lemma blockTxCount_shortIDsBelow (n : Nat) : (shortIDsBelow n).blockTxCount = n := by
  simp [CBlockHeaderAndShortTxIDs.blockTxCount, shortIDsBelow]

variable {n : Nat}

lemma toNat_ofNat_of_mem {k : Nat} (hn : n ≤ 2 ^ 48) (h : k ∈ List.range n) :
    (UInt64.ofNat k).toNat = k := by
  rw [mem_range] at h
  rw [UInt64.toNat_ofNat', Nat.mod_eq_of_lt (by omega)]

lemma wireForm_shortIDsBelow (hn : n ≤ MAX_SIZE) : (shortIDsBelow n).WireForm := by
  have hn48 : n ≤ 2 ^ 48 := hn.trans (by decide)
  refine ⟨Nat.zero_le _, by simpa [shortIDsBelow] using hn, fun id hid => ?_, Nat.zero_le _,
    by simp [shortIDsBelow]⟩
  obtain ⟨k, hk, rfl⟩ := mem_map.mp hid
  rw [toNat_ofNat_of_mem hn48 hk]
  exact (mem_range.mp hk).trans_le hn48

lemma nodup_shortIDsBelow (hn : n ≤ 2 ^ 48) : (shortIDsBelow n).shorttxids.Nodup := by
  refine nodup_range.map_on fun k hk l hl heq => ?_
  rw [← toNat_ofNat_of_mem hn hk, heq, toNat_ofNat_of_mem hn hl]

lemma crowded_one (shortCount : Nat) (done ids : List UInt64) :
    crowded (fun _ _ _ => 1) shortCount done ids = false := by
  induction ids generalizing done with
  | nil => rfl
  | cons id ids ih => simp [crowded, ih]

lemma isTooLarge_shortIDsBelow (hn : n ≤ 71428) : isTooLarge (shortIDsBelow n) = false := by
  have hmin : MIN_TRANSACTION_SIZE = 14 := by decide
  simpa [isTooLarge, blockTxCount_shortIDsBelow, hmin, MAX_BLOCK_SIZE] using hn

lemma not_refused_shortIDsBelow (h0 : n ≠ 0) (hn : n ≤ 71428) :
    ¬Refused (fun _ _ _ => 1) (shortIDsBelow n) := by
  have hnodup : (shortIDsBelow n).shorttxids.Nodup := nodup_shortIDsBelow (hn.trans (by decide))
  rintro (h | h | ⟨-, h⟩)
  · exact h ⟨by simp [shortIDsBelow, h0], isTooLarge_shortIDsBelow hn⟩
  · simp [prefilledOk, shortIDsBelow, wellPlaced] at h
  · simp [slotsRefused, crowded_one, hnodup] at h

/-- The message arrives and passes the size check, and its last short id gets the first place. -/
theorem shortIDsBelow_unsafe :
    CBlockHeaderAndShortTxIDs.unserialize.run (shortIDsBelow 65537).serialize =
        some (shortIDsBelow 65537, []) ∧
      isTooLarge (shortIDsBelow 65537) = false ∧
      ¬DecodesSafely ⟨fun _ => 0, fun _ _ _ => 0⟩ (fun _ _ _ => 1) .new (shortIDsBelow 65537) := by
  refine ⟨?_, isTooLarge_shortIDsBelow (by decide), ?_⟩
  · have hread := CBlockHeaderAndShortTxIDs.unserialize_reads
      (wireForm_shortIDsBelow (by decide : 65537 ≤ MAX_SIZE)) []
    rwa [append_nil] at hread
  · rw [decodesSafely_iff_fit (not_refused_shortIDsBelow (by decide) (by decide))
      (by simp [CTxMemPool.new]), blockTxCount_shortIDsBelow]
    decide

end PartiallyDownloadedBlock

end Jumpcoin
