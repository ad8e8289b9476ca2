import Jumpcoin.Net.AddrMan

/-!
# The tables of the address manager

What the tables of an address manager say about each other: the buckets, the index by address and
the entries. While an operation is under way some entries may be without a place; they are `loose`.

An elementary change moves one entry: into the tables and out of them, into a new bucket and out of
it, into its tried bucket and out of it. Each has a rule.
-/

namespace Jumpcoin

open Finset

/-- The times of an entry, and the number of its references. -/
structure CAddrInfo.Valid (info : CAddrInfo) : Prop where
  lastTry : 0 ≤ info.nLastTry.toInt
  lastSuccess : 0 ≤ info.nLastSuccess.toInt
  success : info.fInTried = true → info.nLastSuccess ≠ 0
  bound : info.nRefCount ≤ ADDRMAN_NEW_BUCKETS_PER_ADDRESS

def Buckets.placesIn (vv : Buckets) (nId bucketCount bucketSize : Nat) : Finset (Nat × Nat) :=
  (Finset.range bucketCount ×ˢ Finset.range bucketSize).filter fun cell =>
    vv cell.1 cell.2 = some nId

@[irreducible] def Buckets.places (vv : Buckets) (nId : Nat) : Finset (Nat × Nat) :=
  vv.placesIn nId ADDRMAN_NEW_BUCKET_COUNT ADDRMAN_BUCKET_SIZE

namespace Buckets

variable {vv : Buckets} {n b p : Nat}

lemma mem_placesIn {bucketCount bucketSize : Nat} : (b, p) ∈ vv.placesIn n bucketCount bucketSize ↔
    b < bucketCount ∧ p < bucketSize ∧ vv b p = some n := by
  simp [placesIn, and_assoc]

lemma mem_places : (b, p) ∈ vv.places n ↔
    b < ADDRMAN_NEW_BUCKET_COUNT ∧ p < ADDRMAN_BUCKET_SIZE ∧ vv b p = some n := by
  unfold places
  exact mem_placesIn

lemma places_put_of_ne {id : Option Nat} (hold : vv b p ≠ some n) (hid : id ≠ some n) :
    (vv.put b p id).places n = vv.places n := by
  ext ⟨b', p'⟩
  rw [mem_places, mem_places, put]
  grind

lemma card_places_put_none (hmem : (b, p) ∈ vv.places n) :
    ((vv.put b p none).places n).card + 1 = (vv.places n).card := by
  have herase : (vv.put b p none).places n = (vv.places n).erase (b, p) := by
    ext ⟨b', p'⟩
    rw [mem_erase, mem_places, mem_places, put]
    grind
  rw [herase, card_erase_add_one hmem]

lemma card_places_put_some (hold : vv b p ≠ some n) (hb : b < ADDRMAN_NEW_BUCKET_COUNT)
    (hp : p < ADDRMAN_BUCKET_SIZE) :
    ((vv.put b p (some n)).places n).card = (vv.places n).card + 1 := by
  have hinsert : (vv.put b p (some n)).places n = insert (b, p) (vv.places n) := by
    ext ⟨b', p'⟩
    rw [mem_insert, mem_places, mem_places, put]
    grind
  rw [hinsert, card_insert_of_notMem fun hmem => hold (mem_places.mp hmem).2.2]

end Buckets

namespace CAddrMan

variable {h : AddrHashes} {s s' : CAddrMan} {loose loose' : Nat → Prop}

/-! ## Coherent tables -/

def triedCell (h : AddrHashes) (s : CAddrMan) (addr : CService) : Nat × Nat :=
  (h.getTriedBucket s.nKey addr,
    h.getBucketPosition s.nKey false (h.getTriedBucket s.nKey addr) addr)

lemma triedCell_congr (h : AddrHashes) (hkey : s'.nKey = s.nKey) (addr : CService) :
    triedCell h s' addr = triedCell h s addr := by
  simp [triedCell, hkey]

structure Tables (h : AddrHashes) (s : CAddrMan) (loose : Nat → Prop) : Prop where
  valid : ∀ n info, s.mapInfo.find? n = some info → CAddrInfo.Valid info
  references : ∀ n info, s.mapInfo.find? n = some info → info.nRefCount = (s.vvNew.places n).card
  held : ∀ n info, s.mapInfo.find? n = some info → info.fInTried = false → ¬loose n →
    info.nRefCount ≠ 0
  address : ∀ ip n, s.mapAddr ip = some n ↔ ∃ info, s.mapInfo.find? n = some info ∧ info.ip = ip
  tried : ∀ cell : Nat × Nat, ∀ n, s.vvTried cell.1 cell.2 = some n ↔
    ∃ info, s.mapInfo.find? n = some info ∧ info.fInTried = true ∧
      triedCell h s info.toCService = cell
  new : ∀ b p n, s.vvNew b p = some n → b < ADDRMAN_NEW_BUCKET_COUNT ∧
    ∃ info, s.mapInfo.find? n = some info ∧ info.fInTried = false ∧
      h.getBucketPosition s.nKey true b info.toCService = p

variable {nId : Nat} {f : CAddrInfo → CAddrInfo}

@[simp] lemma find?_modifyInfo {n : Nat} :
    (s.modifyInfo nId f).mapInfo.find? n =
      if n = nId then (s.mapInfo.find? n).map f else s.mapInfo.find? n :=
  OrderedMap.find?_modify

lemma getBucketPosition_lt (nKey : BitVec 256) (fNew : Bool) (b : Nat) (addr : CService) :
    h.getBucketPosition nKey fNew b addr < ADDRMAN_BUCKET_SIZE :=
  Nat.mod_lt _ (by decide)

/-! ## Changes of one entry -/

structure Changes (s s' : CAddrMan) (nId : Nat) (info info' : CAddrInfo) : Prop where
  before : s.mapInfo.find? nId = some info
  after : ∀ n, s'.mapInfo.find? n = if n = nId then some info' else s.mapInfo.find? n
  service : info'.toCService = info.toCService
  mapAddr : s'.mapAddr = s.mapAddr
  nKey : s'.nKey = s.nKey

namespace Tables

variable {info info' : CAddrInfo}

section

variable (ht : Tables h s loose)
include ht

lemma mono (hloose : ∀ n info, s.mapInfo.find? n = some info → loose n → loose' n) :
    Tables h s loose' :=
  ⟨ht.valid, ht.references,
    fun n info hn hf hl => ht.held n info hn hf fun hl' => hl (hloose n info hn hl'),
    ht.address, ht.tried, ht.new⟩

/-- The tables are what is found in them, but for the positions in the list. -/
lemma congr {pos : Nat → Int} (hfind : ∀ n, s'.mapInfo.find? n =
      (s.mapInfo.find? n).map fun info => { info with nRandomPos := pos n })
    (hmapAddr : s'.mapAddr = s.mapAddr) (hvvTried : s'.vvTried = s.vvTried)
    (hvvNew : s'.vvNew = s.vvNew) (hkey : s'.nKey = s.nKey) : Tables h s' loose := by
  have hinfo {n : Nat} {info : CAddrInfo} (hn : s'.mapInfo.find? n = some info) :
      ∃ info', s.mapInfo.find? n = some info' ∧ { info' with nRandomPos := pos n } = info := by
    rwa [hfind, Option.map_eq_some_iff] at hn
  constructor
  · intro n info hn
    obtain ⟨info', hn', rfl⟩ := hinfo hn
    have hv := ht.valid n info' hn'
    exact ⟨hv.lastTry, hv.lastSuccess, hv.success, hv.bound⟩
  · intro n info hn
    obtain ⟨info', hn', rfl⟩ := hinfo hn
    rw [hvvNew]
    exact ht.references n info' hn'
  · intro n info hn
    obtain ⟨info', hn', rfl⟩ := hinfo hn
    exact ht.held n info' hn'
  · intro ip n
    rw [hmapAddr, ht.address, hfind]
    simp
  · intro cell n
    rw [hvvTried, ht.tried, hfind]
    simp [triedCell_congr h hkey]
  · intro b p n hn
    rw [hvvNew] at hn
    rw [hkey, hfind]
    simpa using ht.new b p n hn

/-- What is in a place is there in a bucket that exists. -/
lemma mem_places {b p n : Nat} (hcell : s.vvNew b p = some n) : (b, p) ∈ s.vvNew.places n := by
  obtain ⟨hb, info, -, -, rfl⟩ := ht.new b p n hcell
  exact Buckets.mem_places.mpr ⟨hb, getBucketPosition_lt _ _ _ _, hcell⟩

/-- An entry has no references if it is in no new bucket. -/
lemma nRefCount_eq_zero (hinfo : s.mapInfo.find? nId = some info)
    (hnone : ∀ b p, s.vvNew b p ≠ some nId) : info.nRefCount = 0 := by
  rw [ht.references nId info hinfo, Int.natCast_eq_zero, card_eq_zero,
    eq_empty_iff_forall_notMem]
  rintro ⟨b, p⟩ hmem
  exact hnone b p (Buckets.mem_places.mp hmem).2.2

/-- A tried entry is in no new bucket. -/
lemma vvNew_ne_of_tried (hinfo : s.mapInfo.find? nId = some info)
    (hflag : info.fInTried = true) (b p : Nat) : s.vvNew b p ≠ some nId := by
  intro hnew
  obtain ⟨-, i, hi, hfalse, -⟩ := ht.new b p nId hnew
  rw [hinfo] at hi
  cases hi
  simp [hflag] at hfalse

section

variable (hc : Changes s s' nId info info') (hvalid : info'.Valid)
  (hheld : info'.fInTried = false → ¬loose' nId → info'.nRefCount ≠ 0)
  (hloose : ∀ n ≠ nId, loose n → loose' n)
include hc hvalid hheld hloose

/-- The rule for the change of one entry, with the places it has afterwards. -/
lemma change (hrefs : info'.nRefCount = (s'.vvNew.places nId).card)
    (hothers : ∀ n ≠ nId, s'.vvNew.places n = s.vvNew.places n)
    (htried : ∀ cell : Nat × Nat, ∀ n, s'.vvTried cell.1 cell.2 = some n ↔ if n = nId then
      info'.fInTried = true ∧ triedCell h s info.toCService = cell else s.vvTried cell.1 cell.2 =
      some n)
    (hnew : ∀ b p n, s'.vvNew b p = some n → if n = nId then b < ADDRMAN_NEW_BUCKET_COUNT ∧
      info'.fInTried = false ∧ h.getBucketPosition s.nKey true b info.toCService = p else s.vvNew b
      p = some n) : Tables h s' loose' := by
  obtain ⟨hbefore, hafter, hservice, hmapAddr, hkey⟩ := hc
  have hcell := triedCell_congr h hkey
  constructor
  · intro n i hn
    have := ht.valid n i
    grind
  · intro n i hn
    have := ht.references n i
    grind
  · intro n i hn
    have := ht.held n i
    grind
  · intro ip n
    rw [hmapAddr, ht.address]
    grind
  · intro cell n
    rw [htried]
    have := ht.tried cell n
    grind
  · intro b p n hn
    have := ht.new b p n
    rw [hkey]
    grind

/-- A change that leaves the tried buckets alone. -/
lemma changeNew (hflag : info'.fInTried = info.fInTried)
    (hvvTried : s'.vvTried = s.vvTried) (hrefs : info'.nRefCount = (s'.vvNew.places nId).card)
    (hothers : ∀ n ≠ nId, s'.vvNew.places n = s.vvNew.places n)
    (hnew : ∀ b p n, s'.vvNew b p = some n → s.vvNew b p = some n ∨ n = nId ∧ b <
      ADDRMAN_NEW_BUCKET_COUNT ∧ info.fInTried = false ∧ h.getBucketPosition s.nKey true b
      info.toCService = p) : Tables h s' loose' := by
  have hbefore := hc.before
  refine ht.change hc hvalid hheld hloose hrefs hothers (fun cell n => ?_) fun b p n hn => ?_
  · have := ht.tried cell n
    grind
  · have := ht.new b p n
    grind

/-- A change that leaves the new buckets alone. -/
lemma changeTried (hvvNew : s'.vvNew = s.vvNew) (hcount : info'.nRefCount = info.nRefCount)
    (hflag : info.fInTried = true ∨ info.nRefCount = 0 ∨ info'.fInTried = false)
    (htried : ∀ cell : Nat × Nat, ∀ n, s'.vvTried cell.1 cell.2 = some n ↔ if n = nId then
      info'.fInTried = true ∧ triedCell h s info.toCService = cell else s.vvTried cell.1 cell.2 =
      some n) : Tables h s' loose' := by
  have hbefore := hc.before
  have hrefs := ht.references nId info hbefore
  refine ht.change hc hvalid hheld hloose (by rw [hcount, hvvNew, hrefs])
    (fun n _ => by rw [hvvNew]) htried fun b p n hn => ?_
  rw [hvvNew] at hn
  have hplace := ht.new b p n hn
  split_ifs with heq
  · subst heq
    have hcard : 0 < (s.vvNew.places n).card := card_pos.mpr ⟨_, ht.mem_places hn⟩
    grind
  · exact hn

end

end

lemma changes_modifyInfo (hinfo : s.mapInfo.find? nId = some info)
    (hservice : (f info).toCService = info.toCService) :
    Changes s (s.modifyInfo nId f) nId info (f info) :=
  ⟨hinfo, fun n => by rw [find?_modifyInfo]; grind, hservice, rfl, rfl⟩

section

variable (ht : Tables h s loose) {b p : Nat}
include ht

/-- Other data of an entry is changed. -/
lemma modifyInfo (hinfo : s.mapInfo.find? nId = some info)
    (hvalid : (f info).Valid) (hservice : (f info).toCService = info.toCService)
    (hcount : (f info).nRefCount = info.nRefCount) (hflag : (f info).fInTried = info.fInTried) :
    Tables h (s.modifyInfo nId f) loose := by
  refine ht.changeNew (changes_modifyInfo hinfo hservice) hvalid ?_ (fun _ _ hl => hl) hflag rfl ?_
    (fun _ _ => rfl) fun b p n hn => .inl hn
  · rw [hcount, hflag]
    exact ht.held nId info hinfo
  · rw [hcount]
    exact ht.references nId info hinfo

lemma dropReference (hcell : s.vvNew b p = some nId)
    (hinfo : s.mapInfo.find? nId = some info) (hheld : ¬loose' nId → info.nRefCount ≠ 1)
    (hloose : ∀ n ≠ nId, loose n → loose' n) : Tables h (s.dropReference nId b p) loose' := by
  have hv := ht.valid nId info hinfo
  have hcard := Buckets.card_places_put_none (ht.mem_places hcell)
  have hrefs := ht.references nId info hinfo
  have hbound := hv.bound
  have hc : Changes s (s.dropReference nId b p) nId info
      { info with nRefCount := info.nRefCount - 1 } :=
    ⟨hinfo, (changes_modifyInfo hinfo rfl).after, rfl, rfl, rfl⟩
  refine ht.changeNew hc
    ⟨hv.lastTry, hv.lastSuccess, hv.success, by simp only; omega⟩ (fun _ hl => ?_) hloose rfl rfl
    (show info.nRefCount - 1 = (((s.vvNew.put b p none).places nId).card : Int) by omega)
    (fun n hn => ?_) fun b' p' n hn => ?_
  · have := hheld hl
    simp only
    omega
  · exact Buckets.places_put_of_ne (by rw [hcell]; simpa using Ne.symm hn) (by simp)
  · change (if b' = b ∧ p' = p then none else s.vvNew b' p') = some n at hn
    grind

lemma addReference (hinfo : s.mapInfo.find? nId = some info) (hflag : info.fInTried = false)
    (hb : b < ADDRMAN_NEW_BUCKET_COUNT) (hp : h.getBucketPosition s.nKey true b info.toCService = p)
    (hfree : s.vvNew b p = none) (hbound : info.nRefCount < ADDRMAN_NEW_BUCKETS_PER_ADDRESS)
    (hloose : ∀ n ≠ nId, loose n → loose' n) : Tables h (s.addReference nId b p) loose' := by
  have hv := ht.valid nId info hinfo
  have hold : s.vvNew b p ≠ some nId := by simp [hfree]
  have hsize : p < ADDRMAN_BUCKET_SIZE := hp ▸ getBucketPosition_lt s.nKey true b info.toCService
  have hcard := Buckets.card_places_put_some hold hb hsize
  have hrefs := ht.references nId info hinfo
  have hc : Changes s (s.addReference nId b p) nId info
      { info with nRefCount := info.nRefCount + 1 } :=
    ⟨hinfo, (changes_modifyInfo hinfo rfl).after, rfl, rfl, rfl⟩
  refine ht.changeNew hc
    ⟨hv.lastTry, hv.lastSuccess, hv.success, by simp only; omega⟩ (fun _ hl => ?_) hloose rfl rfl
    (show info.nRefCount + 1 = (((s.vvNew.put b p (some nId)).places nId).card : Int) by omega)
    (fun n hn => ?_) fun b' p' n hn => ?_
  · simp only
    omega
  · exact Buckets.places_put_of_ne (by simp [hfree]) (by simpa using Ne.symm hn)
  · change (if b' = b ∧ p' = p then some nId else s.vvNew b' p') = some n at hn
    grind

/-- An entry leaves its tried bucket. -/
lemma demote (hc : Changes s s' nId info { info with fInTried := false })
    (hflag : info.fInTried = true) (hvvNew : s'.vvNew = s.vvNew)
    (hvvTried : s'.vvTried = s.vvTried.put (triedCell h s info.toCService).1 (triedCell h s
      info.toCService).2 none) (hloose : ∀ n, loose n → loose' n) (hnId : loose' nId) :
    Tables h s' loose' := by
  have hinfo := hc.before
  have hv := ht.valid nId info hinfo
  refine ht.changeTried hc
    ⟨hv.lastTry, hv.lastSuccess, by simp, hv.bound⟩ (fun _ hl => absurd hnId hl)
    (fun n _ => hloose n) hvvNew rfl (.inl hflag) fun cell n => ?_
  have hhere := (ht.tried (triedCell h s info.toCService) nId).mpr ⟨info, hinfo, hflag, rfl⟩
  have := ht.tried cell n
  rw [hvvTried, Buckets.put]
  grind

/-- An entry without references gets its place in a tried bucket. -/
lemma promote (hc : Changes s s' nId info { info with fInTried := true })
    (hcount : info.nRefCount = 0) (hsuccess : info.nLastSuccess ≠ 0)
    (hfree : s.vvTried (triedCell h s info.toCService).1 (triedCell h s info.toCService).2 = none)
    (hvvNew : s'.vvNew = s.vvNew)
    (hvvTried : s'.vvTried = s.vvTried.put (triedCell h s info.toCService).1 (triedCell h s
      info.toCService).2 (some nId)) (hloose : ∀ n ≠ nId, loose n → loose' n) :
    Tables h s' loose' := by
  have hinfo := hc.before
  have hv := ht.valid nId info hinfo
  refine ht.changeTried hc
    ⟨hv.lastTry, hv.lastSuccess, fun _ => hsuccess, hv.bound⟩ (by simp) hloose hvvNew rfl
    (.inr (.inl hcount)) fun cell n => ?_
  have := ht.tried cell n
  rw [hvvTried, Buckets.put]
  grind

lemma not_mem_of_find?_none (hid : s.mapInfo.find? nId = none) :
    (s.vvNew.places nId).card = 0 ∧ (∀ ip, s.mapAddr ip ≠ some nId) ∧
      ∀ cell : Nat × Nat, s.vvTried cell.1 cell.2 ≠ some nId := by
  refine ⟨?_, fun ip hip => ?_, fun cell hcell => ?_⟩
  · rw [card_eq_zero, eq_empty_iff_forall_notMem]
    rintro ⟨b, p⟩ hmem
    obtain ⟨-, info, hinfo, -⟩ := ht.new b p nId (Buckets.mem_places.mp hmem).2.2
    rw [hid] at hinfo
    cases hinfo
  · obtain ⟨info, hinfo, -⟩ := (ht.address ip nId).mp hip
    rw [hid] at hinfo
    cases hinfo
  · obtain ⟨info, hinfo, -⟩ := (ht.tried cell nId).mp hcell
    rw [hid] at hinfo
    cases hinfo

lemma enter (hid : s.mapInfo.find? nId = none) (hip : s.mapAddr info.ip = none)
    (hvalid : info.Valid) (hflag : info.fInTried = false) (hcount : info.nRefCount = 0)
    (hafter : ∀ n, s'.mapInfo.find? n = if n = nId then some info else s.mapInfo.find? n)
    (hmapAddr : ∀ ip, s'.mapAddr ip = if ip = info.ip then some nId else s.mapAddr ip)
    (hkey : s'.nKey = s.nKey) (hvvNew : s'.vvNew = s.vvNew) (hvvTried : s'.vvTried = s.vvTried)
    (hloose : ∀ n, loose n → loose' n) (hnId : loose' nId) : Tables h s' loose' := by
  obtain ⟨hcard, haddr, htried⟩ := ht.not_mem_of_find?_none hid
  have hcell := triedCell_congr h hkey
  constructor
  · intro n i hn
    have := ht.valid n i
    grind
  · intro n i hn
    have := ht.references n i
    rw [hvvNew]
    grind
  · intro n i hn
    have := ht.held n i
    grind
  · intro ip n
    have := ht.address ip n
    grind
  · intro cell n
    have := ht.tried cell n
    grind
  · intro b p n hn
    rw [hvvNew] at hn
    have := ht.new b p n hn
    rw [hkey]
    grind

lemma erase (hinfo : s.mapInfo.find? nId = some info)
    (hflag : info.fInTried = false) (hcount : info.nRefCount = 0)
    (hafter : ∀ n, s'.mapInfo.find? n = if n = nId then none else s.mapInfo.find? n)
    (hmapAddr : ∀ ip, s'.mapAddr ip = if ip = info.ip then none else s.mapAddr ip)
    (hkey : s'.nKey = s.nKey) (hvvNew : s'.vvNew = s.vvNew) (hvvTried : s'.vvTried = s.vvTried) :
    Tables h s' loose := by
  have hrefs := ht.references nId info hinfo
  have hcell := triedCell_congr h hkey
  constructor
  · intro n i hn
    have := ht.valid n i
    grind
  · intro n i hn
    have := ht.references n i
    rw [hvvNew]
    grind
  · intro n i hn
    have := ht.held n i
    grind
  · intro ip n
    have := ht.address ip n
    have := (ht.address info.ip nId).mpr ⟨info, hinfo, rfl⟩
    grind
  · intro cell n
    have := ht.tried cell n
    grind
  · intro b p n hn
    rw [hvvNew] at hn
    have := ht.new b p n hn
    have hpos : 0 < (s.vvNew.places n).card := card_pos.mpr ⟨_, ht.mem_places hn⟩
    rw [hkey]
    grind

end

end Tables

end CAddrMan

end Jumpcoin
