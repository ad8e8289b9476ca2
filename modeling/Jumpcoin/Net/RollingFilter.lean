import Jumpcoin.Foundation.Generations
import Mathlib.Data.List.Induction

/-!
# The rolling Bloom filter

`CRollingBloomFilter` of `bloom.cpp`. Keys are inserted into the current one of three generations;
when a generation is full, the oldest one is wiped and becomes the current one. For each place two
bits are stored, which hold the generation that marked it last, or 0.

The table has a size that the constructor computes in floating point from the number of elements and
the rate of false positives, and it can come out empty.
-/

namespace Jumpcoin

open List Generations

/-- What the constructor computes in floating point from a rate of false positives between 0 and 1:
the number of hash functions, and for `nMaxElements` the number
`ceil(-1.0 * nHashFuncs * nMaxElements / log(1.0 - exp(log(fpRate) / nHashFuncs)))` in 32 bits. -/
structure Sizing where
  nHashFuncs : Nat
  filterBits : UInt32 → UInt32
  one_le : 1 ≤ nHashFuncs
  le_fifty : nHashFuncs ≤ 50
  filterBits_zero : filterBits 0 = 0

structure CRollingBloomFilter where
  nEntriesPerGeneration : Nat
  nEntriesThisGeneration : Nat
  nGeneration : Nat
  data : List (BitVec 64)
  nTweak : UInt32
  nHashFuncs : Nat

namespace CRollingBloomFilter

def entriesPerGeneration (nElements : UInt32) : UInt32 := (nElements + 1) / 2

def filterBits (sizing : Sizing) (nElements : UInt32) : UInt32 :=
  sizing.filterBits (entriesPerGeneration nElements * 3)

/-- The constructor. `nTweak` is drawn at random by `reset`. -/
def init (sizing : Sizing) (nElements nTweak : UInt32) : CRollingBloomFilter where
  nEntriesPerGeneration := (entriesPerGeneration nElements).toNat
  nEntriesThisGeneration := 0
  nGeneration := 1
  data := List.replicate (((filterBits sizing nElements + 63) / 64) <<< 1).toNat 0
  nTweak := nTweak
  nHashFuncs := sizing.nHashFuncs

def wipe (nGeneration : Nat) : List (BitVec 64) → List (BitVec 64)
  | p1 :: p2 :: rest =>
    let nGenerationMask1 := -BitVec.ofNat 64 (nGeneration &&& 1)
    let nGenerationMask2 := -BitVec.ofNat 64 (nGeneration >>> 1)
    let mask := (p1 ^^^ nGenerationMask1) ||| (p2 ^^^ nGenerationMask2)
    (p1 &&& mask) :: (p2 &&& mask) :: wipe nGeneration rest
  | rest => rest

def nextGeneration (filter : CRollingBloomFilter) : CRollingBloomFilter :=
  let nGeneration := if filter.nGeneration + 1 = 4 then 1 else filter.nGeneration + 1
  { filter with nEntriesThisGeneration := 0, nGeneration, data := wipe nGeneration filter.data }

def setBit (word : BitVec 64) (bit value : Nat) : BitVec 64 :=
  (word &&& ~~~(1#64 <<< bit)) ||| (BitVec.ofNat 64 value <<< bit)

/-- The lowest bit of `pos` is ignored, and set to zero for the first bit, and to one for the
second. -/
def mark (nGeneration : Nat) (data : List (BitVec 64)) (pos bit : Nat) : List (BitVec 64) :=
  let data := data.modify (pos / 2 * 2) (setBit · bit (nGeneration &&& 1))
  data.modify (pos / 2 * 2 + 1) (setBit · bit (nGeneration >>> 1))

section Hash

variable (murmurHash3 : UInt32 → List UInt8 → UInt32)

def rollingBloomHash (nHashNum nTweak : UInt32) (vDataToHash : List UInt8) : UInt32 :=
  murmurHash3 (nHashNum * 0xFBA4C795 + nTweak) vDataToHash

/-- `pos` and `bit` for a hash function; none where the division by the size is one by zero. -/
def position (filter : CRollingBloomFilter) (vKey : List UInt8) (n : Nat) : Option (Nat × Nat) :=
  let h := rollingBloomHash murmurHash3 (.ofNat n) filter.nTweak vKey
  if filter.data.length = 0 then none
  else some ((h >>> 6).toNat % filter.data.length, (h &&& 0x3F).toNat)

def markHash (vKey : List UInt8) (filter : CRollingBloomFilter) (n : Nat) :
    Option CRollingBloomFilter := do
  let (pos, bit) ← filter.position murmurHash3 vKey n
  some { filter with data := mark filter.nGeneration filter.data pos bit }

def advance (filter : CRollingBloomFilter) : CRollingBloomFilter :=
  let filter :=
    if filter.nEntriesThisGeneration = filter.nEntriesPerGeneration then filter.nextGeneration
    else filter
  { filter with nEntriesThisGeneration := filter.nEntriesThisGeneration + 1 }

def insert (filter : CRollingBloomFilter) (vKey : List UInt8) : Option CRollingBloomFilter :=
  (List.range filter.nHashFuncs).foldlM (markHash murmurHash3 vKey) filter.advance

def isSet (data : List (BitVec 64)) (pos bit : Nat) : Bool :=
  ((data.getD (pos / 2 * 2) 0 ||| data.getD (pos / 2 * 2 + 1) 0) >>> bit) &&& 1#64 != 0#64

def containsLoop (filter : CRollingBloomFilter) (vKey : List UInt8) : List Nat → Option Bool
  | [] => some true
  | n :: rest => do
    let (pos, bit) ← filter.position murmurHash3 vKey n
    if isSet filter.data pos bit then containsLoop filter vKey rest else some false

def contains (filter : CRollingBloomFilter) (vKey : List UInt8) : Option Bool :=
  filter.containsLoop murmurHash3 vKey (List.range filter.nHashFuncs)

def insertAll (filter : CRollingBloomFilter) (keys : List (List UInt8)) :
    Option CRollingBloomFilter :=
  keys.foldlM (insert murmurHash3) filter

end Hash

/-! ## The stored generations -/

def code (data : List (BitVec 64)) (place : Nat × Nat) : Nat :=
  ((data.getD (place.1 * 2) 0).getLsbD place.2).toNat +
    2 * ((data.getD (place.1 * 2 + 1) 0).getLsbD place.2).toNat

variable {bit value i : Nat}

lemma getLsbD_setBit {word : BitVec 64} (hbit : bit < 64) (hi : i < 64) (hvalue : value < 2) :
    (setBit word bit value).getLsbD i = if i = bit then value == 1 else word.getLsbD i := by
  have hcases : value = 0 ∨ value = 1 := by omega
  by_cases heq : i = bit
  · subst heq
    obtain rfl | rfl := hcases <;> simp [setBit, hbit]
  · by_cases hlt : i < bit
    · simp [setBit, heq, hlt, hi]
    · have hsub : i - bit ≠ 0 := by omega
      obtain rfl | rfl := hcases <;> simp [setBit, heq, hlt, hsub, hi]

lemma getLsbD_neg_ofNat (hi : i < 64) (hvalue : value < 2) :
    (-BitVec.ofNat 64 value).getLsbD i = (value == 1) := by
  have hcases : value = 0 ∨ value = 1 := by omega
  obtain rfl | rfl := hcases
  · simp
  · rw [BitVec.neg_one_eq_allOnes, BitVec.getLsbD_allOnes]
    simp [hi]

variable {nGeneration : Nat}

lemma generation_bits (h : nGeneration < 4) :
    nGeneration &&& 1 < 2 ∧ nGeneration >>> 1 < 2 ∧
      ((nGeneration &&& 1) == 1).toNat + 2 * ((nGeneration >>> 1) == 1).toNat = nGeneration := by
  have hcases : nGeneration = 0 ∨ nGeneration = 1 ∨ nGeneration = 2 ∨ nGeneration = 3 := by omega
  obtain rfl | rfl | rfl | rfl := hcases <;> decide

variable {data : List (BitVec 64)}

lemma getD_modify {j : Nat} (hj : j < data.length) (f : BitVec 64 → BitVec 64) :
    (data.modify j f).getD i 0 = if j = i then f (data.getD i 0) else data.getD i 0 := by
  rw [getD_eq_getElem?_getD, getElem?_modify, getD_eq_getElem?_getD]
  split_ifs with heq
  · subst heq
    simp [getElem?_eq_getElem hj]
  · simp

@[simp] lemma length_mark (nGeneration : Nat) (data : List (BitVec 64)) (pos bit : Nat) :
    (mark nGeneration data pos bit).length = data.length := by
  simp [mark]

variable {place : Nat × Nat} {pos : Nat}

/-- Marking changes what is stored at one place. -/
lemma code_mark (hgeneration : nGeneration < 4) (heven : data.length % 2 = 0)
    (hpos : pos < data.length) (hbit : bit < 64) (hplace : place.2 < 64) :
    code (mark nGeneration data pos bit) place =
      if place = (pos / 2, bit) then nGeneration else code data place := by
  obtain ⟨w, b⟩ := place
  have hlow : pos / 2 * 2 < data.length := by omega
  have hhigh : pos / 2 * 2 + 1 < data.length := by omega
  have hne : ∀ w, pos / 2 * 2 ≠ w * 2 + 1 ∧ pos / 2 * 2 + 1 ≠ w * 2 := by omega
  have hiff : pos / 2 * 2 = w * 2 ↔ w = pos / 2 := by omega
  obtain ⟨hfirst, hsecond, hvalue⟩ := generation_bits hgeneration
  simp only [code, mark, getD_modify hlow, getD_modify ((length_modify ..).symm ▸ hhigh),
    (hne _).1, (hne _).2, if_false, Nat.add_right_cancel_iff, hiff, Prod.mk.injEq]
  by_cases hw : w = pos / 2
  · simp only [hw, if_true, getLsbD_setBit hbit hplace hfirst, getLsbD_setBit hbit hplace hsecond,
      true_and]
    split_ifs
    · exact hvalue
    · rfl
  · simp [hw]

lemma length_wipe (nGeneration : Nat) (data : List (BitVec 64)) :
    (wipe nGeneration data).length = data.length := by
  fun_induction wipe nGeneration data <;> simp_all

/-- Wiping forgets one generation. -/
lemma code_wipe (hgeneration : 0 < nGeneration ∧ nGeneration < 4) (heven : data.length % 2 = 0)
    (hplace : place.2 < 64) :
    code (wipe nGeneration data) place =
      if code data place = nGeneration then 0 else code data place := by
  obtain ⟨w, b⟩ := place
  fun_induction wipe nGeneration data generalizing w with
  | case1 p1 p2 rest mask1 mask2 mask ih =>
    cases w with
    | zero =>
      obtain ⟨hfirst, hsecond, hvalue⟩ := generation_bits hgeneration.2
      have hzero := hgeneration.1
      simp only [code, Nat.zero_mul, Nat.zero_add, getD_cons_zero, getD_cons_succ, mask,
        mask1, mask2, BitVec.getLsbD_and, BitVec.getLsbD_or, BitVec.getLsbD_xor,
        getLsbD_neg_ofNat hplace hfirst, getLsbD_neg_ofNat hplace hsecond]
      revert hvalue
      generalize ((nGeneration &&& 1) == 1) = x, ((nGeneration >>> 1) == 1) = y,
        p1.getLsbD b = x1, p2.getLsbD b = y1
      rintro rfl
      cases x <;> cases y <;> cases x1 <;> cases y1 <;> decide
    | succ w =>
      have hrest : rest.length % 2 = 0 := by
        simp only [length_cons] at heven
        omega
      have hnext := ih hrest w hplace
      simpa [code, Nat.succ_mul] using hnext
  | case2 rest hshort =>
    have hempty : rest = [] := by
      match rest, heven with
      | [], _ => rfl
      | p1 :: p2 :: rest, _ => exact absurd rfl (hshort p1 p2 rest)
    simp [hempty, code]

lemma isSet_iff : isSet data pos bit ↔ code data (pos / 2, bit) ≠ 0 := by
  have htest (z : BitVec 64) : (z >>> bit) &&& 1#64 = BitVec.ofNat 64 (z.getLsbD bit).toNat := by
    apply BitVec.eq_of_getLsbD_eq
    intro i _
    by_cases hzero : i = 0
    · subst hzero
      cases hz : z.getLsbD bit <;> simp [hz]
    · cases z.getLsbD bit <;> simp [hzero]
  rw [isSet, htest, BitVec.getLsbD_or, code]
  cases (data.getD (pos / 2 * 2) 0).getLsbD bit <;>
    cases (data.getD (pos / 2 * 2 + 1) 0).getLsbD bit <;> simp

/-! ## What the filter remembers -/

variable {murmurHash3 : UInt32 → List UInt8 → UInt32} {filter : CRollingBloomFilter}
variable {vKey : List UInt8} {history : List (List UInt8)}

def placeOf (murmurHash3 : UInt32 → List UInt8 → UInt32) (nTweak : UInt32) (size : Nat)
    (vKey : List UInt8) (n : Nat) : Nat × Nat :=
  let h := rollingBloomHash murmurHash3 (.ofNat n) nTweak vKey
  ((h >>> 6).toNat % size / 2, (h &&& 0x3F).toNat)

def places (murmurHash3 : UInt32 → List UInt8 → UInt32) (filter : CRollingBloomFilter)
    (vKey : List UInt8) : List (Nat × Nat) :=
  (List.range filter.nHashFuncs).map
    (placeOf murmurHash3 filter.nTweak filter.data.length vKey)

/-- The table is not empty and has two words for each place. -/
structure Paired (filter : CRollingBloomFilter) : Prop where
  nonempty : 0 < filter.data.length
  even : filter.data.length % 2 = 0

lemma placeOf_lt (nTweak : UInt32) (size n : Nat) :
    (placeOf murmurHash3 nTweak size vKey n).2 < 64 := by
  exact Nat.lt_succ_of_le Nat.and_le_right

lemma Paired.position (h : Paired filter) (vKey : List UInt8) (n : Nat) :
    ∃ pos bit, filter.position murmurHash3 vKey n = some (pos, bit) ∧ pos < filter.data.length ∧
      bit < 64 ∧
      (pos / 2, bit) = placeOf murmurHash3 filter.nTweak filter.data.length vKey n := by
  rw [CRollingBloomFilter.position, if_neg h.nonempty.ne']
  exact ⟨_, _, rfl, Nat.mod_lt _ h.nonempty, placeOf_lt _ filter.data.length _, rfl⟩

/-- The filter with another table of the same size. -/
lemma Paired.foldlM_markHash (h : Paired filter) (hgeneration : filter.nGeneration < 4)
    (ns : List Nat) :
    ∃ data, ns.foldlM (markHash murmurHash3 vKey) filter = some { filter with data } ∧
      data.length = filter.data.length ∧
      ∀ place : Nat × Nat, place.2 < 64 → code data place =
        if place ∈ ns.map (placeOf murmurHash3 filter.nTweak filter.data.length vKey)
        then filter.nGeneration else code filter.data place := by
  induction ns generalizing filter with
  | nil => exact ⟨filter.data, rfl, rfl, by simp⟩
  | cons n ns ih =>
    obtain ⟨pos, bit, hposition, hpos, hbit, hplace⟩ := h.position vKey n
    have hlength : (mark filter.nGeneration filter.data pos bit).length = filter.data.length :=
      length_mark _ _ _ _
    have hmarked : Paired { filter with data := mark filter.nGeneration filter.data pos bit } :=
      ⟨hlength ▸ h.nonempty, hlength ▸ h.even⟩
    obtain ⟨data, hfold, hdata, hcode⟩ := ih hmarked hgeneration
    simp only [hlength] at hdata hcode
    refine ⟨data, ?_, hdata, ?_⟩
    · rw [foldlM_cons, markHash, hposition]
      exact hfold
    · intro place hlt
      rw [hcode place hlt, code_mark hgeneration h.even hpos hbit hlt, hplace, map_cons]
      grind

/-- The filter holds exactly what the last insertions at each place were, for the generations that
it keeps. The history lists the inserted keys, newest first. -/
structure Tracks (murmurHash3 : UInt32 → List UInt8 → UInt32) (filter : CRollingBloomFilter)
    (history : List (List UInt8)) : Prop where
  paired : Paired filter
  size_pos : 0 < filter.nEntriesPerGeneration
  count : filter.nEntriesThisGeneration =
    Generations.filled filter.nEntriesPerGeneration history.length
  generation : filter.nGeneration =
    Generations.current filter.nEntriesPerGeneration history.length % 3 + 1
  codes : ∀ place : Nat × Nat, place.2 < 64 → code filter.data place =
    Generations.code 3 (Generations.current filter.nEntriesPerGeneration history.length)
      (Generations.stamp filter.nEntriesPerGeneration
        (history.map (places murmurHash3 filter)) place)

/-- What the next key finds: the codes of the generation it goes into. -/
lemma Tracks.advance (h : Tracks murmurHash3 filter history) :
    let next := Generations.current filter.nEntriesPerGeneration (history.length + 1)
    filter.advance.nEntriesThisGeneration =
      Generations.filled filter.nEntriesPerGeneration (history.length + 1) ∧
    filter.advance.nGeneration = next % 3 + 1 ∧
    filter.advance.data.length = filter.data.length ∧
    ∀ place : Nat × Nat, place.2 < 64 → code filter.advance.data place =
      Generations.code 3 next (Generations.stamp filter.nEntriesPerGeneration
        (history.map (places murmurHash3 filter)) place) := by
  intro next
  by_cases hfull : filter.nEntriesThisGeneration = filter.nEntriesPerGeneration
  · obtain ⟨hnext, hfilled⟩ := current_succ_of_full h.size_pos (h.count ▸ hfull)
    have hgeneration : (if filter.nGeneration + 1 = 4 then 1 else filter.nGeneration + 1) =
        next % 3 + 1 := by
      rw [h.generation]
      split_ifs <;> omega
    simp only [CRollingBloomFilter.advance, if_pos hfull, nextGeneration, hgeneration, hfilled,
      length_wipe, true_and]
    intro place hplace
    rw [code_wipe (by omega) h.paired.even hplace, h.codes place hplace]
    cases hstamp : Generations.stamp filter.nEntriesPerGeneration
        (history.map (places murmurHash3 filter)) place with
    | none => simp [Generations.code]
    | some g =>
      have hle := stamp_le hstamp
      rw [length_map] at hle
      simp only [next, hnext]
      rw [code_next hle]
  · obtain ⟨hnext, hfilled⟩ := current_succ_of_room h.size_pos (h.count ▸ hfull)
    simp only [CRollingBloomFilter.advance, if_neg hfull, next, hnext, hfilled]
    exact ⟨by rw [h.count], h.generation, trivial, h.codes⟩

lemma advance_frame : filter.advance.nEntriesPerGeneration = filter.nEntriesPerGeneration ∧
    filter.advance.nTweak = filter.nTweak ∧ filter.advance.nHashFuncs = filter.nHashFuncs := by
  unfold CRollingBloomFilter.advance nextGeneration
  split_ifs <;> exact ⟨rfl, rfl, rfl⟩

lemma Tracks.insert (h : Tracks murmurHash3 filter history) (vKey : List UInt8) :
    ∃ filter', filter.insert murmurHash3 vKey = some filter' ∧
      Tracks murmurHash3 filter' (vKey :: history) ∧
      filter'.nEntriesPerGeneration = filter.nEntriesPerGeneration := by
  obtain ⟨hcount, hgeneration, hlength, hcodes⟩ := h.advance
  obtain ⟨hper, htweak, hfuncs⟩ := filter.advance_frame
  have hpaired : Paired filter.advance := ⟨hlength ▸ h.paired.nonempty, hlength ▸ h.paired.even⟩
  obtain ⟨data, hfold, hdata, hcode⟩ := hpaired.foldlM_markHash (by omega)
    (List.range filter.nHashFuncs)
  have hplaces : places murmurHash3 { filter.advance with data } = places murmurHash3 filter := by
    funext key
    simp only [places, hdata, hlength, htweak, hfuncs]
  rw [hlength] at hdata
  refine ⟨_, hfold, ⟨⟨hdata ▸ h.paired.nonempty, hdata ▸ h.paired.even⟩, ?_, ?_, ?_, ?_⟩, hper⟩
  · exact hper ▸ h.size_pos
  · rw [length_cons, hper]
    exact hcount
  · rw [length_cons, hper]
    exact hgeneration
  · intro place hplace
    rw [hplaces, hper, length_cons, map_cons, Generations.stamp, hcode place hplace,
      hcodes place hplace, hlength, htweak]
    split_ifs with hin hnot hnot
    · rw [hgeneration, Generations.current, Nat.add_sub_cancel, length_map]
      simp [Generations.code]
    · exact absurd hin hnot
    · exact absurd hnot hin
    · rfl

lemma Tracks.insertAll (h : Tracks murmurHash3 filter history) (keys : List (List UInt8)) :
    ∃ filter', filter.insertAll murmurHash3 keys = some filter' ∧
      Tracks murmurHash3 filter' (keys.reverse ++ history) ∧
      filter'.nEntriesPerGeneration = filter.nEntriesPerGeneration := by
  induction keys generalizing filter history with
  | nil => exact ⟨filter, rfl, h, rfl⟩
  | cons key keys ih =>
    obtain ⟨next, hinsert, hnext, hper⟩ := h.insert key
    obtain ⟨last, hrest, hlast, hsame⟩ := ih hnext
    refine ⟨last, ?_, by simpa using hlast, hsame.trans hper⟩
    rw [CRollingBloomFilter.insertAll, foldlM_cons, hinsert]
    exact hrest

lemma containsLoop_eq_true (h : Paired filter) {ns : List Nat} (hset : ∀ n ∈ ns, code filter.data
      (placeOf murmurHash3 filter.nTweak filter.data.length vKey n) ≠ 0) :
    filter.containsLoop murmurHash3 vKey ns = some true := by
  induction ns with
  | nil => rfl
  | cons n ns ih =>
    obtain ⟨pos, bit, hposition, -, -, hplace⟩ := h.position vKey n
    have hhere := hset n mem_cons_self
    rw [← hplace] at hhere
    simp only [containsLoop, hposition, Option.bind_eq_bind, Option.bind_some,
      isSet_iff.mpr hhere, if_true]
    exact ih fun m hm => hset m (mem_cons_of_mem _ hm)

/-- A key among those of the last two generations is contained. -/
lemma Tracks.contains {newest older : List (List UInt8)}
    (h : Tracks murmurHash3 filter (newest ++ vKey :: older))
    (hrecent : newest.length < 2 * filter.nEntriesPerGeneration) :
    filter.contains murmurHash3 vKey = some true := by
  apply containsLoop_eq_true h.paired
  intro n hn
  rw [h.codes _ (placeOf_lt _ _ _)]
  have hplace : placeOf murmurHash3 filter.nTweak filter.data.length vKey n ∈
      places murmurHash3 filter vKey := mem_map_of_mem hn
  rw [← length_map (places murmurHash3 filter), map_append, map_cons]
  exact code_stamp_ne_zero h.size_pos (by decide) hplace (by rwa [length_map])

/-! ## The table that the constructor makes -/

lemma length_data_init (sizing : Sizing) (nElements nTweak : UInt32) :
    (init sizing nElements nTweak).data.length =
      ((filterBits sizing nElements).toNat + 63) % 2 ^ 32 / 64 * 2 % 2 ^ 32 := by
  simp [init, Nat.shiftLeft_eq]

/-- The table is not empty unless the number of bits is zero or is rounded up beyond 32 bits. -/
lemma length_data_init_pos (sizing : Sizing) (nElements nTweak : UInt32) :
    0 < (init sizing nElements nTweak).data.length ↔
      0 < (filterBits sizing nElements).toNat ∧
        (filterBits sizing nElements).toNat ≤ 2 ^ 32 - 64 := by
  have hlt := (filterBits sizing nElements).toNat_lt
  rw [length_data_init]
  omega

variable {nElements : UInt32} {sizing : Sizing}

/-- Where the table is not empty, two generations are enough for all elements. -/
lemma le_two_mul_entries (h : 0 < (filterBits sizing nElements).toNat) :
    0 < (entriesPerGeneration nElements).toNat ∧
      nElements.toNat ≤ 2 * (entriesPerGeneration nElements).toNat := by
  have hlt := nElements.toNat_lt
  have hpos : entriesPerGeneration nElements ≠ 0 := by
    intro hzero
    rw [filterBits, hzero, UInt32.zero_mul, sizing.filterBits_zero] at h
    exact absurd h (by decide)
  have hnat : (entriesPerGeneration nElements).toNat ≠ 0 := fun hzero =>
    hpos (UInt32.toNat_inj.mp hzero)
  have hentries : (entriesPerGeneration nElements).toNat = (nElements.toNat + 1) % 2 ^ 32 / 2 := by
    simp [entriesPerGeneration]
  omega

lemma code_replicate (size : Nat) (place : Nat × Nat) : code (List.replicate size 0) place = 0 := by
  have hword (i : Nat) : (List.replicate size (0 : BitVec 64)).getD i 0 = 0 := by
    rw [getD_eq_getElem?_getD, getElem?_replicate]
    split_ifs <;> rfl
  rw [code, hword, hword]
  simp

lemma tracks_init {nTweak : UInt32} (hdata : 0 < (init sizing nElements nTweak).data.length)
    (hentries : 0 < (entriesPerGeneration nElements).toNat) :
    Tracks murmurHash3 (init sizing nElements nTweak) [] := by
  refine ⟨⟨hdata, ?_⟩, hentries, ?_, ?_, ?_⟩
  · rw [length_data_init]
    omega
  · simp [init, Generations.filled]
  · simp [init, Generations.current]
  · intro place _
    exact code_replicate _ _

/-- Without a place in the table the first insertion divides by zero. -/
lemma insert_eq_none (hdata : filter.data.length = 0) (hfuncs : 1 ≤ filter.nHashFuncs)
    (vKey : List UInt8) : filter.insert murmurHash3 vKey = none := by
  have hnil : filter.advance.data.length = 0 := by
    unfold CRollingBloomFilter.advance nextGeneration
    split_ifs <;> simp [length_wipe, hdata]
  obtain ⟨k, hk⟩ : ∃ k, filter.nHashFuncs = k + 1 := ⟨filter.nHashFuncs - 1, by omega⟩
  rw [CRollingBloomFilter.insert, hk, range_succ_eq_map, foldlM_cons, markHash, position,
    if_pos hnil]
  rfl

/-- Seven hash functions and ten bits for each entry, about one false positive in 100. -/
def sizingOnePercent :
    Sizing := ⟨7, fun nMaxElements => 10 * nMaxElements, by decide, by decide, rfl⟩

end CRollingBloomFilter

end Jumpcoin
