import Jumpcoin.Net.AddrCheck

/-!
# Storing the address manager and reading it back

A consistent manager can be stored, and what it stores is orderly: the counters are right, no
address occurs twice, and every tried entry has had a success. Reading orderly data into a manager
without entries succeeds and gives a consistent manager. References may be lost, as places of new
buckets may have been taken by entries that were demoted, and so the last loop prunes entries.
-/

namespace Jumpcoin

open Codec List OrderedMap

/-! ## The stored form -/

lemma readNetAddr_reads (ip : CNetAddr) : Reads readNetAddr (writeNetAddr ip) ip :=
  (readLittleEndian_reads ip.isLt).map (by simp)

lemma readPort_reads (port : UInt16) : Reads readPort (writePort port) port := by
  have hlt := port.toNat_lt
  have hjoin : (UInt8.ofNat (port.toNat / 256)).toNat * 256 +
      (UInt8.ofNat (port.toNat % 256)).toNat = port.toNat := by
    rw [UInt8.toNat_ofNat', UInt8.toNat_ofNat']
    omega
  refine (readByte_reads _).bind ((readByte_reads _).bind_nil ?_)
  rw [hjoin, UInt16.ofNat_toNat]
  exact Reads.pure port

lemma StoredAddrInfo.unserialize_reads (nVersion : Int32) (info : StoredAddrInfo) :
    Reads unserialize (info.serialize nVersion) info :=
  (readInt32_reads _).bind <| (readUInt32_reads _).bind <| (readUInt64_reads _).bind <|
    (readNetAddr_reads _).bind <| (readPort_reads _).bind <| (readNetAddr_reads _).bind <|
      (readInt64_reads _).bind <| (readInt32_reads _).bind_nil (Reads.pure _)

namespace PeersData

lemma readBucket_reads {indexes : List Int32} (h : indexes.length < 2 ^ 31) :
    Reads readBucket (writeBucket indexes) indexes := by
  have hsize : (Int32.ofNat indexes.length).toInt.toNat = indexes.length := by
    rw [Int32.toInt_ofNat_of_lt (by omega)]
    rfl
  have hmany := readMany_reads (f := id) indexes fun n _ => readInt32_reads n
  rw [map_id, ← hsize] at hmany
  exact (readInt32_reads _).bind hmany

lemma maskBuckets_maskBuckets (nVersion : UInt8) (nUBuckets : Int32) :
    maskBuckets nVersion (maskBuckets nVersion nUBuckets) = nUBuckets := by
  simp only [maskBuckets]
  split_ifs
  · rw [Int32.xor_assoc, Int32.xor_self, Int32.xor_zero]
  · rfl

/-- What a consistent manager stores. -/
structure Orderly (data : PeersData) : Prop where
  version : data.nVersion = 1
  key : data.nKey ≠ 0
  nNew : data.nNew.toInt = data.newInfos.length
  nTried : data.nTried.toInt = data.triedInfos.length
  nUBuckets : data.nUBuckets.toInt = ADDRMAN_NEW_BUCKET_COUNT
  newBound : data.newInfos.length ≤ ADDRMAN_NEW_BUCKET_COUNT * ADDRMAN_BUCKET_SIZE
  triedBound : data.triedInfos.length ≤ ADDRMAN_TRIED_BUCKET_COUNT * ADDRMAN_BUCKET_SIZE
  bucketCount : data.buckets.length = ADDRMAN_NEW_BUCKET_COUNT
  bucketSize : ∀ indexes ∈ data.buckets, indexes.length ≤ ADDRMAN_BUCKET_SIZE
  addresses : ((data.newInfos ++ data.triedInfos).map fun info => info.ip).Nodup
  newTimes : ∀ info ∈ data.newInfos, 0 ≤ info.nLastSuccess.toInt
  triedTimes : ∀ info ∈ data.triedInfos, 0 < info.nLastSuccess.toInt

lemma unserialize_reads {data : PeersData} (hd : data.Orderly) (nClientVersion : Int32) :
    Reads unserialize (data.serialize nClientVersion) data := by
  have hnew := readMany_reads (f := id) data.newInfos fun info _ =>
    StoredAddrInfo.unserialize_reads nClientVersion info
  have htried := readMany_reads (f := id) data.triedInfos fun info _ =>
    StoredAddrInfo.unserialize_reads nClientVersion info
  have hbuckets := readMany_reads (f := id) data.buckets fun indexes hi =>
    readBucket_reads ((hd.bucketSize indexes hi).trans_lt (by decide))
  rw [map_id, ← Int.toNat_natCast data.newInfos.length, ← hd.nNew] at hnew
  rw [map_id, ← Int.toNat_natCast data.triedInfos.length, ← hd.nTried] at htried
  rw [map_id, hd.bucketCount, ← Int.toNat_natCast ADDRMAN_NEW_BUCKET_COUNT, ← hd.nUBuckets]
    at hbuckets
  have hnewBound : data.nNew.toInt ≤ ADDRMAN_NEW_BUCKET_COUNT * ADDRMAN_BUCKET_SIZE := by
    rw [hd.nNew]
    exact_mod_cast hd.newBound
  have htriedBound : data.nTried.toInt ≤ ADDRMAN_TRIED_BUCKET_COUNT * ADDRMAN_BUCKET_SIZE := by
    rw [hd.nTried]
    exact_mod_cast hd.triedBound
  refine (readByte_reads _).bind <| (readByte_reads _).bind <| (ensure_reads rfl).nil_bind <|
    (readUInt256_reads _).bind <| (readInt32_reads _).bind <| (readInt32_reads _).bind <|
      (readInt32_reads _).bind <| (ensure_reads (decide_eq_true hnewBound)).nil_bind <|
        (ensure_reads (decide_eq_true htriedBound)).nil_bind <| hnew.bind <| htried.bind ?_
  rw [maskBuckets_maskBuckets]
  exact hbuckets.bind_nil (Reads.pure _)

end PeersData

namespace CAddrMan

variable {h : AddrHashes} {s s' : CAddrMan} {k : Int}

/-! ## What a consistent manager stores -/

lemma length_cells (bucketCount : Nat) :
    (cells bucketCount).length = bucketCount * ADDRMAN_BUCKET_SIZE := by
  have hproduct := length_product (List.range bucketCount) (List.range ADDRMAN_BUCKET_SIZE)
  rwa [length_range, length_range] at hproduct

variable {n : Nat}

lemma Consistent.nRefCount_ne_zero_iff (hc : Consistent h s) {info : CAddrInfo}
    (hinfo : s.mapInfo.find? n = some info) : info.nRefCount ≠ 0 ↔ info.fInTried = false := by
  have ht := hc.sound.tables
  constructor
  · intro hcount
    by_contra hflag
    rw [Bool.not_eq_false] at hflag
    exact hcount (ht.nRefCount_eq_zero hinfo (ht.vvNew_ne_of_tried hinfo hflag))
  · intro hflag
    exact ht.held n info hinfo hflag id

/-- The entries that are written first are the new ones. -/
lemma Consistent.newInfos_eq (hc : Consistent h s) : s.newInfos =
    (s.mapInfo.entries.filter fun e => !e.2.fInTried).map Prod.snd := by
  rw [newInfos, filter_map]
  congr 1
  refine filter_congr fun e he => ?_
  have := hc.nRefCount_ne_zero_iff (find?_eq_some_iff.mpr he)
  cases hflag : e.2.fInTried <;> simp_all

lemma triedInfos_eq : s.triedInfos =
    (s.mapInfo.entries.filter fun e => e.2.fInTried).map Prod.snd := by
  rw [triedInfos, filter_map]
  rfl

section

variable (hc : Consistent h s)
include hc

lemma Consistent.length_newInfos : (s.newInfos.length : Int) = s.nNew := by
  have := hc.sound.newCount
  rw [OrderedMap.count, countP_eq_length_filter] at this
  rw [hc.newInfos_eq, length_map]
  omega

lemma Consistent.length_triedInfos : (s.triedInfos.length : Int) = s.nTried := by
  rw [hc.sound.triedCount, OrderedMap.count, countP_eq_length_filter, triedInfos_eq,
    length_map]

/-- Every new entry has a place of its own. -/
lemma Consistent.length_newInfos_le :
    s.newInfos.length ≤ ADDRMAN_NEW_BUCKET_COUNT * ADDRMAN_BUCKET_SIZE := by
  have ht := hc.sound.tables
  set ids := (s.mapInfo.entries.filter fun e => !e.2.fInTried).map Prod.fst with hids
  have hnodup : ids.Nodup := s.mapInfo.nodup_keys.sublist (filter_sublist.map _)
  have hsub : ids ⊆ (cells ADDRMAN_NEW_BUCKET_COUNT).filterMap fun cell =>
      s.vvNew cell.1 cell.2 := by
    intro n hn
    obtain ⟨e, he, rfl⟩ := mem_map.mp hn
    obtain ⟨hmem, hflag⟩ := mem_filter.mp he
    have hinfo := find?_eq_some_iff.mpr hmem
    have hrefs := ht.references _ _ hinfo
    have hheld := ht.held _ _ hinfo (by simpa using hflag) id
    have hcard : 0 < (s.vvNew.places e.1).card := by omega
    obtain ⟨cell, hcell⟩ := Finset.card_pos.mp hcard
    obtain ⟨hb, hp, hv⟩ := Buckets.mem_places.mp hcell
    exact mem_filterMap.mpr ⟨cell, mem_cells.mpr ⟨hb, hp⟩, hv⟩
  calc s.newInfos.length = ids.length := by rw [hc.newInfos_eq, hids, length_map, length_map]
    _ ≤ _ := (subperm_of_subset hnodup hsub).length_le
    _ ≤ (cells ADDRMAN_NEW_BUCKET_COUNT).length := length_filterMap_le _ _
    _ = _ := length_cells _

lemma Consistent.length_triedInfos_le :
    s.triedInfos.length ≤ ADDRMAN_TRIED_BUCKET_COUNT * ADDRMAN_BUCKET_SIZE :=
  calc s.triedInfos.length = s.setTried.length := by
        rw [triedInfos_eq, setTried, length_map, length_map]
    _ = _ := (setTried_perm hc.sound.tables).length_eq
    _ ≤ (cells ADDRMAN_TRIED_BUCKET_COUNT).length := length_filterMap_le _ _
    _ = _ := length_cells _

/-- No two entries have the same address. -/
lemma Consistent.nodup_addresses :
    ((s.newInfos ++ s.triedInfos).map fun info => info.ip).Nodup := by
  have ht := hc.sound.tables
  have hperm : (s.newInfos ++ s.triedInfos).Perm (s.mapInfo.entries.map Prod.snd) := by
    rw [hc.newInfos_eq, triedInfos_eq, ← map_append]
    refine List.Perm.map _ (perm_append_comm.trans ?_)
    exact filter_append_perm (fun e : Nat × CAddrInfo => e.2.fInTried) _
  rw [(hperm.map _).nodup_iff, map_map]
  refine (List.Nodup.of_map _ s.mapInfo.nodup_keys).map_on ?_
  intro e he e' he' hip
  have hinfo := find?_eq_some_iff.mpr he
  have hinfo' := find?_eq_some_iff.mpr he'
  have h₁ := (ht.address e.2.ip e.1).mpr ⟨e.2, hinfo, rfl⟩
  have h₂ := (ht.address e.2.ip e'.1).mpr ⟨e'.2, hinfo', hip.symm⟩
  have hkey : e.1 = e'.1 := Option.some.inj (h₁.symm.trans h₂)
  rw [← hkey, hinfo] at hinfo'
  exact Prod.ext hkey (Option.some.inj hinfo')

lemma peersData_orderly : s.peersData.Orderly := by
  have hnew := hc.length_newInfos
  have htried := hc.length_triedInfos
  have hnewBound := hc.length_newInfos_le
  have htriedBound := hc.length_triedInfos_le
  have hvalid {e : Nat × CAddrInfo} (he : e ∈ s.mapInfo.entries) : e.2.Valid :=
    hc.sound.tables.valid e.1 e.2 (find?_eq_some_iff.mpr he)
  have hsmall : ADDRMAN_NEW_BUCKET_COUNT * ADDRMAN_BUCKET_SIZE < 2 ^ 31 := by decide
  have hsmall' : ADDRMAN_TRIED_BUCKET_COUNT * ADDRMAN_BUCKET_SIZE < 2 ^ 31 := by decide
  constructor
  · rfl
  · exact hc.key
  · simp only [peersData, length_map, hnew]
    exact Int32.toInt_ofInt_of_le (by omega) (by omega)
  · simp only [peersData, length_map, htried]
    exact Int32.toInt_ofInt_of_le (by omega) (by omega)
  · rfl
  · simpa [peersData] using hnewBound
  · simpa [peersData] using htriedBound
  · simp [peersData]
  · intro indexes hi
    simp only [peersData, mem_map] at hi
    obtain ⟨bucket, -, rfl⟩ := hi
    have hle := length_filterMap_le (s.vvNew bucket) (List.range ADDRMAN_BUCKET_SIZE)
    rw [bucketIndexes, length_map]
    exact hle
  · have := hc.nodup_addresses
    rw [peersData, ← map_append, map_map]
    exact this
  · intro stored hmem
    obtain ⟨info, hinfo, rfl⟩ := mem_map.mp hmem
    rw [hc.newInfos_eq] at hinfo
    obtain ⟨e, he, rfl⟩ := mem_map.mp hinfo
    exact (hvalid (mem_filter.mp he).1).lastSuccess
  · intro stored hmem
    obtain ⟨info, hinfo, rfl⟩ := mem_map.mp hmem
    rw [triedInfos_eq] at hinfo
    obtain ⟨e, he, rfl⟩ := mem_map.mp hinfo
    obtain ⟨he, hflag⟩ := mem_filter.mp he
    have hne := (hvalid he).success hflag
    have hnonneg := (hvalid he).lastSuccess
    have hne' : e.2.nLastSuccess.toInt ≠ 0 := fun hzero => hne (Int64.toInt_inj.mp hzero)
    change 0 < e.2.nLastSuccess.toInt
    omega

lemma serialize_spec (nClientVersion : Int32) :
    s.serialize nClientVersion = some (s.peersData.serialize nClientVersion) := by
  have hnew := hc.length_newInfos
  have htried := hc.length_triedInfos
  have hnewIds : ∀ nIds < s.newInfos.length, (nIds : Int) ≠ s.nNew := fun nIds hlt => by omega
  have htriedIds : ∀ nIds < s.triedInfos.length, (nIds : Int) ≠ s.nTried := fun nIds hlt => by omega
  simp only [serialize, guard, if_pos hnewIds, if_pos htriedIds]
  rfl

end

/-! ## The entries are read -/

def Unknown (s : CAddrMan) (stored : List StoredAddrInfo) : Prop :=
  (stored.map fun info => info.ip).Nodup ∧ ∀ info ∈ stored, s.mapAddr info.ip = none

variable {rest : List StoredAddrInfo} {info : StoredAddrInfo}

lemma Unknown.enter (hu : Unknown s (info :: rest))
    (hmapAddr : ∀ ip, s'.mapAddr ip = if ip = info.ip then some n else s.mapAddr ip) :
    Unknown s' rest := by
  obtain ⟨hnodup, hnone⟩ := hu
  rw [map_cons, nodup_cons] at hnodup
  refine ⟨hnodup.2, fun other hother => ?_⟩
  have hne : other.ip ≠ info.ip := by
    intro heq
    exact hnodup.1 (mem_map.mpr ⟨other, hother, heq⟩)
  rw [hmapAddr, if_neg hne]
  exact hnone other (mem_cons_of_mem _ hother)

lemma Unknown.tail (hu : Unknown s (info :: rest)) : Unknown s rest :=
  ⟨(nodup_cons.mp hu.1).2, fun other hother => hu.2 other (mem_cons_of_mem _ hother)⟩

def NewUpTo (s : CAddrMan) (i : Nat) : Prop :=
  ∀ n < i, ∃ info, s.mapInfo.find? n = some info ∧ info.fInTried = false

variable {data : PeersData}

lemma valid_restore_null {stored : StoredAddrInfo} (htime : 0 ≤ stored.nLastSuccess.toInt) :
    (CAddrInfo.null.restore stored).Valid :=
  ⟨le_refl (0 : Int), htime, Bool.noConfusion,
    (by decide : (0 : Int) ≤ ADDRMAN_NEW_BUCKETS_PER_ADDRESS)⟩

lemma loadNew_eq_enter (hd : data.Orderly) (n : Nat) (stored : StoredAddrInfo) :
    s.loadNew h data n stored =
      s.enter n (((s.mapInfo.find? n).getD .null).restore stored) := by
  simp [loadNew, hd.version, hd.nUBuckets]

variable {infos : List StoredAddrInfo}

/-- The first loop: the new entries, of which none has a reference yet. -/
lemma loadNews_spec (hd : data.Orderly) {i : Nat} (hs : Sound h s (fun _ => True) k)
    (hids : ∀ n, i ≤ n → s.mapInfo.find? n = none) (hnew : NewUpTo s i)
    (hcount : i + infos.length ≤ s.nIdCount) (hunknown : Unknown s (infos ++ rest))
    (htimes : ∀ info ∈ infos, 0 ≤ info.nLastSuccess.toInt) :
    let s' := (infos.zipIdx i).foldl (fun s entry => s.loadNew h data entry.2 entry.1) s
    Sound h s' (fun _ => True) (k + infos.length) ∧ NewUpTo s' (i + infos.length) ∧
      Unknown s' rest ∧ s'.nKey = s.nKey := by
  induction infos generalizing s i k with
  | nil => exact ⟨by simpa using hs, hnew, hunknown, rfl⟩
  | cons info infos ih =>
    have hid := hids i le_rfl
    have hip : s.mapAddr info.ip = none := hunknown.2 info (by simp)
    have hs₁ := enter_spec hs (CAddrInfo.null.restore info) hid hip
      (valid_restore_null (htimes info mem_cons_self)) rfl rfl
      (by rw [length_cons] at hcount; omega)
    have hfind (n : Nat) : (s.enter i (CAddrInfo.null.restore info)).mapInfo.find? n =
        if n = i then some { CAddrInfo.null.restore info with nRandomPos := s.vRandom.length }
        else s.mapInfo.find? n := find?_set
    have hids₁ (n : Nat) (hn : i + 1 ≤ n) :
        (s.enter i (CAddrInfo.null.restore info)).mapInfo.find? n = none := by
      rw [hfind, if_neg (by omega)]
      exact hids n (by omega)
    have hnew₁ : NewUpTo (s.enter i (CAddrInfo.null.restore info)) (i + 1) := by
      intro n hn
      rw [hfind]
      split_ifs with heq
      · exact ⟨_, rfl, rfl⟩
      · exact hnew n (by omega)
    have hcount₁ : i + 1 + infos.length ≤ (s.enter i (CAddrInfo.null.restore info)).nIdCount := by
      rw [length_cons] at hcount
      change i + 1 + infos.length ≤ s.nIdCount
      omega
    obtain ⟨hs', hnew', hunknown', hkey⟩ := ih (hs₁.mono fun _ _ _ _ => trivial) hids₁ hnew₁ hcount₁
      (hunknown.enter fun _ => rfl) fun other hother => htimes other (mem_cons_of_mem _ hother)
    rw [zipIdx_cons, foldl_cons, loadNew_eq_enter hd, hid, length_cons]
    refine ⟨?_, ?_, hunknown', hkey⟩
    · rwa [Nat.cast_add, Nat.cast_one, add_comm (infos.length : Int), ← add_assoc]
    · rwa [add_comm infos.length, ← add_assoc]

/-- An entry goes straight into its tried bucket. -/
lemma loadTried_free {nTried : Int} (hs : Sound h { s with nTried := nTried } (fun _ => True) k)
    (hip : s.mapAddr info.ip = none) (htime : 0 < info.nLastSuccess.toInt)
    (hcount : s.nIdCount + 1 < 2 ^ 31)
    (hload : loadTried h s info =
      { s.enter s.nIdCount { CAddrInfo.null.restore info with fInTried := true } with
        vvTried := s.vvTried.put (triedCell h s info.toCService).1
          (triedCell h s info.toCService).2 (some s.nIdCount)
        nIdCount := s.nIdCount + 1 })
    (hfree : s.vvTried (triedCell h s info.toCService).1 (triedCell h s info.toCService).2 = none) :
    Sound h { loadTried h s info with nTried := nTried + 1 } (fun _ => True) k := by
  have hs₁ := enter_spec (hs.skipIds s.nLastGood (Nat.le_succ _) hcount)
    (CAddrInfo.null.restore info) hs.find?_nIdCount hip (valid_restore_null htime.le) rfl rfl
    (Nat.lt_succ_self _)
  have hinfo : (s.enter s.nIdCount (CAddrInfo.null.restore info)).mapInfo.find? s.nIdCount =
      some { CAddrInfo.null.restore info with nRandomPos := s.vRandom.length } := by
    simp [enter]
  have hmodify : (loadTried h s info).mapInfo = (s.enter s.nIdCount
      (CAddrInfo.null.restore info)).mapInfo.modify s.nIdCount
        fun info => { info with fInTried := true } := by
    rw [hload, enter, enter, modify_set]
  have hafter (n : Nat) : (loadTried h s info).mapInfo.find? n = if n = s.nIdCount then
      some { CAddrInfo.null.restore info with
        fInTried := true, nRandomPos := s.vRandom.length } else
      (s.enter s.nIdCount (CAddrInfo.null.restore info)).mapInfo.find? n := by
    rw [hmodify, find?_modify]
    grind
  rw [hload] at hmodify hafter ⊢
  exact hs₁.modify (f := fun info => { info with fInTried := true }) (hs₁.tables.promote
    ⟨hinfo, hafter, rfl, rfl, rfl⟩ rfl (ne_zero_of_pos htime) hfree rfl rfl fun _ _ _ => trivial)
    hinfo rfl hmodify rfl (add_zero (nTried + 1))
    ((add_assoc s.nNew k 1).trans (add_zero _).symm) rfl

/-- The second loop: the tried entries. The counter was set before the loop. -/
lemma loadTrieds_spec {nNew : Nat}
    (hs : Sound h { s with nTried := s.nTried - infos.length } (fun _ => True) k)
    (hnew : NewUpTo s nNew) (hcount : s.nIdCount + infos.length < 2 ^ 31)
    (hunknown : Unknown s infos) (htimes : ∀ info ∈ infos, 0 < info.nLastSuccess.toInt) :
    let s' := infos.foldl (loadTried h) s
    Sound h s' (fun _ => True) k ∧ NewUpTo s' nNew ∧ s'.nNew = s.nNew ∧ s'.nKey = s.nKey := by
  induction infos generalizing s with
  | nil => exact ⟨by simpa using hs, hnew, rfl, rfl⟩
  | cons info infos ih =>
    have hlength : s.nTried - (info :: infos).length + 1 = s.nTried - infos.length := by
      rw [length_cons]
      omega
    have htimes' : ∀ info ∈ infos, 0 < info.nLastSuccess.toInt := fun other hother =>
      htimes other (mem_cons_of_mem _ hother)
    have htime := htimes info mem_cons_self
    rw [length_cons] at hcount
    rw [foldl_cons]
    set cell := triedCell h s info.toCService with hcell
    by_cases hfree : s.vvTried cell.1 cell.2 = none
    · have hload : loadTried h s info =
          { s.enter s.nIdCount { CAddrInfo.null.restore info with fInTried := true } with
            vvTried := s.vvTried.put cell.1 cell.2 (some s.nIdCount)
            nIdCount := s.nIdCount + 1 } := if_pos hfree
      have hs₁ : Sound h { loadTried h s info with
          nTried := (loadTried h s info).nTried - infos.length } (fun _ => True) k := by
        rw [show (loadTried h s info).nTried = s.nTried by rw [hload]; rfl, ← hlength]
        exact loadTried_free hs (hunknown.2 info (by simp)) htime (by omega) hload hfree
      have hnew₁ : NewUpTo (loadTried h s info) nNew := by
        intro n hn
        obtain ⟨i, hi, hflag⟩ := hnew n hn
        have hlt := hs.fresh n i hi
        refine ⟨i, ?_, hflag⟩
        rw [hload]
        simp only [enter, find?_set]
        rw [if_neg (by simp only at hlt; omega), hi]
      obtain ⟨hs', hnew', hnNew', hkey'⟩ := ih hs₁ hnew₁ (by rw [hload]; simp only; omega)
        (hunknown.enter (n := s.nIdCount) (by rw [hload]; exact fun ip => rfl)) htimes'
      exact ⟨hs', hnew', hnNew'.trans (by rw [hload]; rfl), hkey'.trans (by rw [hload]; rfl)⟩
    · have hload : loadTried h s info = { s with nTried := s.nTried - 1 } := if_neg hfree
      rw [hload]
      have hs₁ : Sound h { s with nTried := s.nTried - 1 - infos.length } (fun _ => True) k :=
        by convert hs using 2; omega
      exact ih hs₁ hnew (by simp only; omega) hunknown.tail htimes'

/-! ## The references are read, and entries without any pruned -/

/-- An index in a bucket, whatever it is. -/
lemma loadReference_spec {bucket : Nat} (hbucket : bucket < ADDRMAN_NEW_BUCKET_COUNT)
    (hs : Sound h s (fun _ => True) 0) (hnew : NewUpTo s s.nNew.toNat) (nIndex : Int32) :
    ∃ s', s.loadReference h data bucket nIndex = some s' ∧ Sound h s' (fun _ => True) 0 ∧
      NewUpTo s' s'.nNew.toNat ∧ s'.nKey = s.nKey := by
  by_cases hrange : 0 ≤ nIndex.toInt ∧ nIndex.toInt < s.nNew
  · obtain ⟨info, hinfo, hflag⟩ := hnew nIndex.toInt.toNat (by omega)
    simp only [loadReference, if_pos hrange, hinfo, Option.bind_eq_bind, Option.bind_some]
    split_ifs with hadd
    · obtain ⟨-, -, hfree, hbound⟩ := hadd
      refine ⟨_, rfl, ?_, fun n hn => ?_, rfl⟩
      · exact hs.modify (hs.tables.addReference hinfo hflag hbucket rfl hfree hbound
          fun _ _ _ => trivial) hinfo
          (f := fun info => { info with nRefCount := info.nRefCount + 1 }) rfl rfl rfl rfl rfl rfl
      · obtain ⟨i, hi, hiflag⟩ := hnew n hn
        rw [addReference, find?_modifyInfo, hi]
        split_ifs
        · exact ⟨_, rfl, hiflag⟩
        · exact ⟨i, rfl, hiflag⟩
    · exact ⟨s, rfl, hs, hnew, rfl⟩
  · exact ⟨s, by rw [loadReference, if_neg hrange], hs, hnew, rfl⟩

variable {nKey : BitVec 256}

lemma loadReferences_spec {buckets : List (List Int32 × Nat)}
    (hbuckets : ∀ bucket ∈ buckets, bucket.2 < ADDRMAN_NEW_BUCKET_COUNT)
    (hs : Sound h s (fun _ => True) 0) (hnew : NewUpTo s s.nNew.toNat) (hkey : s.nKey = nKey) :
    ∃ s', buckets.foldlM (fun s bucket => bucket.1.foldlM (loadReference h data bucket.2) s) s =
      some s' ∧ Sound h s' (fun _ => True) 0 ∧ s'.nKey = nKey := by
  let Good (s : CAddrMan) : Prop :=
    Sound h s (fun _ => True) 0 ∧ NewUpTo s s.nNew.toNat ∧ s.nKey = nKey
  suffices hloop : ∃ s', buckets.foldlM
      (fun s bucket => bucket.1.foldlM (loadReference h data bucket.2) s) s = some s' ∧
      (∀ bucket ∈ ([] : List (List Int32 × Nat)), bucket.2 < ADDRMAN_NEW_BUCKET_COUNT) ∧ Good s' by
    obtain ⟨s', hload, -, hs', -, hkey'⟩ := hloop
    exact ⟨s', hload, hs', hkey'⟩
  refine Loop.foldlM_rule
    (fun (left : List (List Int32 × Nat)) s =>
      (∀ bucket ∈ left, bucket.2 < ADDRMAN_NEW_BUCKET_COUNT) ∧ Good s) ?_
    ⟨hbuckets, hs, hnew, hkey⟩
  rintro bucket left s ⟨hleft, hgood⟩
  have hstep (nIndex : Int32) (_ : List Int32) (s : CAddrMan) (hgood : Good s) :
      ∃ s', loadReference h data bucket.2 s nIndex = some s' ∧ Good s' := by
    obtain ⟨hs, hnew, hkey⟩ := hgood
    obtain ⟨s', hload, hs', hnew', hkey'⟩ :=
      loadReference_spec (hleft bucket mem_cons_self) hs hnew nIndex
    exact ⟨s', hload, hs', hnew', hkey'.trans hkey⟩
  obtain ⟨s', hload, hgood'⟩ := Loop.foldlM_rule (fun _ s => Good s) hstep (l := bucket.1) hgood
  exact ⟨s', hload, fun b hb => hleft b (mem_cons_of_mem _ hb), hgood'⟩

/-- The last loop: entries that are left are pruned if they have no references. -/
lemma pruneEntries_spec (hs : Sound h s (fun _ => True) 0) : ∃ s',
    (s.mapInfo.entries.map Prod.fst).foldlM pruneEntry s = some s' ∧
      Sound h s' (fun _ => False) 0 ∧ s'.nKey = s.nKey := by
  suffices hloop : ∃ s', (s.mapInfo.entries.map Prod.fst).foldlM pruneEntry s = some s' ∧
      Sound h s' (· ∈ ([] : List Nat)) 0 ∧ ([] : List Nat).Nodup ∧
      (∀ n ∈ ([] : List Nat), ∃ info, s'.mapInfo.find? n = some info) ∧ s'.nKey = s.nKey by
    obtain ⟨s', hprune, hs', -, -, hkey⟩ := hloop
    exact ⟨s', hprune, hs'.mono fun n _ _ hn => not_mem_nil hn, hkey⟩
  refine Loop.foldlM_rule (fun left t => Sound h t (· ∈ left) 0 ∧ left.Nodup ∧
    (∀ n ∈ left, ∃ info, t.mapInfo.find? n = some info) ∧ t.nKey = s.nKey) ?_ ⟨?_, ?_, ?_, rfl⟩
  · rintro nId left t ⟨ht, hnodup, hfound, hkey⟩
    obtain ⟨hnot, hnodup⟩ := nodup_cons.mp hnodup
    obtain ⟨info, hinfo⟩ := hfound nId mem_cons_self
    simp only [pruneEntry, hinfo, Option.bind_eq_bind, Option.bind_some]
    split_ifs with hprune
    · obtain ⟨t', hdelete, ht', hsame, -, hgone, hkeeps⟩ := delete_spec ht hinfo hprune.1 hprune.2
      refine ⟨t', hdelete, ht'.mono fun n i hn hl => ?_, hnodup, fun n hn => ?_,
        hsame.nKey.trans hkey⟩
      · refine (mem_cons.mp hl).resolve_left fun heq => ?_
        rw [heq, hgone] at hn
        cases hn
      · obtain ⟨i, hi⟩ := hfound n (mem_cons_of_mem _ hn)
        obtain ⟨q, hq⟩ := hkeeps n (fun heq => hnot (heq ▸ hn)) i hi
        exact ⟨_, hq⟩
    · refine ⟨t, rfl, ht.settle fun n i hn hflag hl => ?_, hnodup, fun n hn =>
        hfound n (mem_cons_of_mem _ hn), hkey⟩
      rcases mem_cons.mp hl with rfl | hl
      · rw [hinfo] at hn
        cases hn
        exact .inr fun hzero => hprune ⟨hflag, hzero⟩
      · exact .inl hl
  · refine hs.mono fun n info hn _ => ?_
    exact mem_map.mpr ⟨(n, info), find?_eq_some_iff.mp hn, rfl⟩
  · exact s.mapInfo.nodup_keys
  · intro n hn
    obtain ⟨e, he, rfl⟩ := mem_map.mp hn
    exact ⟨e.2, find?_eq_some_iff.mpr he⟩

/-! ## The manager is read -/

structure Blank (s : CAddrMan) : Prop where
  mapInfo : s.mapInfo = .empty
  mapAddr : ∀ ip, s.mapAddr ip = none

lemma blank_new (nKey : BitVec 256) : Blank (new nKey) := ⟨rfl, fun _ => rfl⟩

lemma Sound.of_blank (hb : Blank s) (hrandom : s.vRandom = []) (htried : s.nTried = 0)
    (hvvTried : ∀ b p, s.vvTried b p = none) (hvvNew : ∀ b p, s.vvNew b p = none)
    (hidCount : s.nIdCount < 2 ^ 31) (loose : Nat → Prop) : Sound h s loose (-s.nNew) := by
  have hnone (n : Nat) : s.mapInfo.find? n = none := by
    rw [hb.mapInfo]
    rfl
  refine ⟨⟨?_, ?_, ?_, ?_, ?_, ?_⟩, ⟨?_, ?_⟩, ?_, ?_, ?_, hidCount⟩
  · simp [hnone]
  · simp [hnone]
  · simp [hnone]
  · simp [hnone, hb.mapAddr]
  · simp [hnone, hvvTried]
  · simp [hvvNew]
  · simp [pos?, hnone]
  · rw [hrandom]
    exact BackIndex.indexed_nil fun n => by simp [Live, pos?, hnone]
  · rw [htried, hb.mapInfo]
    rfl
  · rw [hb.mapInfo]
    simp [OrderedMap.count, OrderedMap.empty]
  · simp [hnone]

lemma consistent_new (hkey : nKey ≠ 0) : Consistent h (new nKey) :=
  ⟨Sound.of_blank (blank_new nKey) rfl rfl (fun _ _ => rfl) (fun _ _ => rfl)
    (Nat.two_pow_pos 31) _, hkey⟩

/-- The first loop does not look at the counters that are set around it. -/
lemma foldl_loadNew_counters (hd : data.Orderly) (infos : List (StoredAddrInfo × Nat))
    (nIdCount : Nat) (nTried : Int) :
    infos.foldl (fun s entry => s.loadNew h data entry.2 entry.1)
        { s with nIdCount := nIdCount, nTried := nTried } =
      { infos.foldl (fun s entry => s.loadNew h data entry.2 entry.1) s with
        nIdCount := nIdCount, nTried := nTried } := by
  induction infos generalizing s with
  | nil => rfl
  | cons entry infos ih =>
    rw [foldl_cons, foldl_cons, ← ih, loadNew_eq_enter hd, loadNew_eq_enter hd]
    rfl

lemma foldl_loadNew_nNew (hd : data.Orderly) (infos : List (StoredAddrInfo × Nat)) :
    (infos.foldl (fun s entry => s.loadNew h data entry.2 entry.1) s).nNew = s.nNew := by
  induction infos generalizing s with
  | nil => rfl
  | cons entry infos ih =>
    rw [foldl_cons, ih, loadNew_eq_enter hd]
    rfl

/-- Orderly data is read into a manager without entries. -/
lemma load_spec (hd : data.Orderly) (hb : Blank s) :
    ∃ s', s.load h data = some s' ∧ Consistent h s' := by
  have hnNew : data.nNew.toInt.toNat = data.newInfos.length := by rw [hd.nNew]; rfl
  have hsmall : data.newInfos.length + data.triedInfos.length < 2 ^ 31 := by
    have h₁ := hd.newBound
    have h₂ := hd.triedBound
    simp only [ADDRMAN_NEW_BUCKET_COUNT, ADDRMAN_TRIED_BUCKET_COUNT, ADDRMAN_BUCKET_SIZE] at h₁ h₂
    omega
  set s₀ : CAddrMan :=
    { s.clear data.nKey with nNew := data.nNew.toInt, nTried := data.nTried.toInt } with hs₀
  -- the counter of ids as it will be, and that of tried entries as if it had not been set yet
  have hblank : Blank { s₀ with nIdCount := data.newInfos.length, nTried := 0 } :=
    ⟨hb.mapInfo, hb.mapAddr⟩
  have hs₁ : Sound h { s₀ with nIdCount := data.newInfos.length, nTried := 0 } (fun _ => True)
      (-data.nNew.toInt) :=
    Sound.of_blank hblank rfl rfl (fun _ _ => rfl) (fun _ _ => rfl) (by simp only; omega) _
  have hunknown : Unknown { s₀ with nIdCount := data.newInfos.length, nTried := 0 }
      (data.newInfos ++ data.triedInfos) := ⟨hd.addresses, fun _ _ => hblank.mapAddr _⟩
  have hnone (n : Nat) (_ : 0 ≤ n) : s₀.mapInfo.find? n = none := by
    rw [show s₀.mapInfo = .empty from hb.mapInfo]
    rfl
  obtain ⟨hs₂, hnew₂, hunknown₂, hkey₂⟩ := loadNews_spec hd hs₁ hnone (fun n hn => by omega)
    (by simp) hunknown hd.newTimes
  have hnTried := congrArg CAddrMan.nTried
    (foldl_loadNew_counters (h := h) (s := s₀) hd data.newInfos.zipIdx s₀.nIdCount s₀.nTried)
  have hnNew₂ := foldl_loadNew_nNew (h := h) (s := s₀) hd data.newInfos.zipIdx
  rw [foldl_loadNew_counters hd] at hs₂ hnew₂ hunknown₂ hkey₂
  simp only [load, ← hs₀, hnNew]
  generalize data.newInfos.zipIdx.foldl (fun s entry => s.loadNew h data entry.2 entry.1) s₀ = s₂
    at *
  rw [hd.nNew, neg_add_cancel] at hs₂
  have hs₂' : Sound h { s₂ with
      nIdCount := data.newInfos.length
      nTried := s₂.nTried - data.triedInfos.length } (fun _ => True) 0 := by
    rwa [hnTried, hs₀, hd.nTried, sub_self]
  obtain ⟨hs₃, hnew₃, hnNew₃, hkey₃⟩ :=
    loadTrieds_spec (s := { s₂ with nIdCount := data.newInfos.length }) hs₂' hnew₂ hsmall hunknown₂
      hd.triedTimes
  generalize data.triedInfos.foldl (loadTried h) { s₂ with nIdCount := data.newInfos.length } = s₃
    at *
  have hnew₃' : NewUpTo s₃ s₃.nNew.toNat := by
    have hlength : s₃.nNew.toNat = 0 + data.newInfos.length := by
      rw [hnNew₃, hnNew₂, hs₀, zero_add, hnNew]
    rwa [hlength]
  have hbuckets : ∀ bucket ∈ data.buckets.zipIdx, bucket.2 < ADDRMAN_NEW_BUCKET_COUNT := by
    intro bucket hbucket
    rw [← hd.bucketCount]
    exact snd_lt_of_mem_zipIdx hbucket
  obtain ⟨s₄, hload, hs₄, hkey₄⟩ := loadReferences_spec hbuckets hs₃ hnew₃' (hkey₃.trans hkey₂)
  obtain ⟨s₅, hprune, hs₅, hkey₅⟩ := pruneEntries_spec hs₄
  refine ⟨s₅, ?_, hs₅, ?_⟩
  · rw [hload]
    exact hprune
  · rw [hkey₅, hkey₄]
    exact hd.key

lemma unserialize_eq_load (hd : data.Orderly) (nClientVersion : Int32) :
    s.unserialize h (data.serialize nClientVersion) = s.load h data := by
  have hread := PeersData.unserialize_reads hd nClientVersion []
  rw [append_nil] at hread
  rw [unserialize, hread]
  rfl

/-- What a consistent manager stores is read back. -/
lemma unserialize_spec {t : CAddrMan} (hc : Consistent h t) (hb : Blank s)
    (nClientVersion : Int32) : ∃ bytes s', t.serialize nClientVersion = some bytes ∧
      s.unserialize h bytes = some s' ∧ Consistent h s' := by
  have hd := peersData_orderly hc
  obtain ⟨s', hload, hs'⟩ := load_spec (h := h) hd hb
  exact ⟨_, s', serialize_spec hc nClientVersion,
    (unserialize_eq_load hd nClientVersion).trans hload, hs'⟩

end CAddrMan

end Jumpcoin
