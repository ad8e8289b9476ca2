import Jumpcoin.Foundation.Sequences
import Jumpcoin.Net.AddrOperations

/-!
# The consistency check of the address manager

`Check_` returns 0 on a consistent manager. The check takes every id it meets in the tried buckets
out of a set, and counts down the references of every id it meets in the new buckets: at any moment
what it has in hand is what the places that are left hold.
-/

namespace Jumpcoin

open List

namespace CAddrMan

variable {h : AddrHashes} {s : CAddrMan}

lemma failUnless_true {code : Int} {ok : Bool} (hok : ok = true) : failUnless ok code = .ok () :=
  if_pos hok

lemma forM_eq_ok {α : Type*} {es : List α} {f : α → Except Int Unit} (hf : ∀ e ∈ es, f e = .ok ()) :
    es.forM f = .ok () := by
  induction es with
  | nil => rfl
  | cons e es ih =>
    rw [List.forM, hf e mem_cons_self]
    exact ih fun e he => hf e (mem_cons_of_mem _ he)

/-! ## The places -/

variable {cell : Nat × Nat}

lemma mem_cells {bucketCount : Nat} :
    cell ∈ cells bucketCount ↔ cell.1 < bucketCount ∧ cell.2 < ADDRMAN_BUCKET_SIZE := by
  obtain ⟨b, p⟩ := cell
  exact mem_product.trans (and_congr mem_range mem_range)

lemma nodup_cells (bucketCount : Nat) : (cells bucketCount).Nodup :=
  nodup_range.product nodup_range

lemma countP_cells (vv : Buckets) (n bucketCount : Nat) :
    (cells bucketCount).countP (fun cell => vv cell.1 cell.2 = some n) =
      (vv.placesIn n bucketCount ADDRMAN_BUCKET_SIZE).card := by
  rw [countP_eq_length_filter,
    ← toFinset_card_of_nodup ((nodup_cells bucketCount).filter _)]
  congr 1
  ext cell
  simp [Buckets.placesIn, mem_cells]

lemma triedCell_mem_cells (addr : CService) :
    triedCell h s addr ∈ cells ADDRMAN_TRIED_BUCKET_COUNT :=
  mem_cells.mpr ⟨Nat.mod_lt _ (by decide), getBucketPosition_lt _ _ _ _⟩

/-! ## The entries -/

variable {info : CAddrInfo} {n : Nat}

lemma checkInfo_eq_ok (hs : Sound h s (fun _ => False) 0)
    (hinfo : s.mapInfo.find? n = some info) : s.checkInfo n info = .ok () := by
  have hv := hs.tables.valid n info hinfo
  have hrefs := hs.tables.references n info hinfo
  have haddr : s.mapAddr info.ip = some n := (hs.tables.address info.ip n).mpr ⟨info, hinfo, rfl⟩
  have hpos : 0 ≤ info.nRandomPos := hs.listed.nonneg n _ (by simp [pos?, hinfo])
  have hrandom := hs.listed.getElem? hinfo
  cases hflag : info.fInTried with
  | true =>
    have hcount := hs.tables.nRefCount_eq_zero hinfo (hs.tables.vvNew_ne_of_tried hinfo hflag)
    simp [checkInfo, failUnless, hflag, hv.success hflag, hcount, haddr, hpos, hrandom, hv.lastTry,
      hv.lastSuccess]
    rfl
  | false =>
    have hcount := hs.tables.held n info hinfo hflag id
    have hnonneg : 0 ≤ info.nRefCount := by omega
    simp [checkInfo, failUnless, hflag, hcount, hnonneg, hv.bound, haddr, hpos, hrandom, hv.lastTry,
      hv.lastSuccess]
    rfl

/-- `vRandom` has the ids of the entries. -/
lemma Listed.perm_keys (hl : Listed s) : s.vRandom.Perm (s.mapInfo.entries.map Prod.fst) := by
  refine (perm_ext_iff_of_nodup hl.indexed.nodup s.mapInfo.nodup_keys).mpr fun n => ?_
  rw [hl.indexed.mem_iff, Live, pos?, Option.isSome_map, Option.isSome_iff_exists, mem_map]
  simp [OrderedMap.find?_eq_some_iff]

lemma length_vRandom (hs : Sound h s (fun _ => False) 0) :
    (s.vRandom.length : Int) = s.nTried + s.nNew := by
  have hlength := hs.listed.perm_keys.length_eq
  have hsplit := length_eq_countP_add_countP (fun e : Nat × CAddrInfo => e.2.fInTried)
    (l := s.mapInfo.entries)
  have htried := hs.triedCount
  have hnew := hs.newCount
  simp only [OrderedMap.count, length_map] at *
  simp only [Bool.not_eq_true, Bool.decide_eq_false] at hsplit
  omega

/-! ## The tried buckets -/

lemma mem_setTried :
    n ∈ s.setTried ↔ ∃ info, s.mapInfo.find? n = some info ∧ info.fInTried = true := by
  simp [setTried, OrderedMap.find?_eq_some_iff]

lemma setTried_perm (ht : Tables h s fun _ => False) : s.setTried.Perm
    ((cells ADDRMAN_TRIED_BUCKET_COUNT).filterMap fun cell => s.vvTried cell.1 cell.2) := by
  have hinj : ∀ cell cell' : Nat × Nat, ∀ n, n ∈ s.vvTried cell.1 cell.2 →
      n ∈ s.vvTried cell'.1 cell'.2 → cell = cell' := by
    intro cell cell' n hcell hcell'
    obtain ⟨info, hinfo, -, rfl⟩ := (ht.tried cell n).mp hcell
    obtain ⟨info', hinfo', -, rfl⟩ := (ht.tried cell' n).mp hcell'
    rw [hinfo] at hinfo'
    cases hinfo'
    rfl
  have hnodup : s.setTried.Nodup := s.mapInfo.nodup_keys.sublist (filter_sublist.map _)
  refine (perm_ext_iff_of_nodup hnodup ((nodup_cells _).filterMap hinj)).mpr fun n => ?_
  rw [mem_setTried, mem_filterMap]
  constructor
  · rintro ⟨info, hinfo, hflag⟩
    exact ⟨_, triedCell_mem_cells info.toCService, (ht.tried _ n).mpr ⟨info, hinfo, hflag, rfl⟩⟩
  · rintro ⟨cell, -, hcell⟩
    obtain ⟨info, hinfo, hflag, -⟩ := (ht.tried cell n).mp hcell
    exact ⟨info, hinfo, hflag⟩

lemma checkTried_eq_ok (ht : Tables h s fun _ => False) :
    (cells ADDRMAN_TRIED_BUCKET_COUNT).foldlM (s.checkTriedCell h) s.setTried = .ok [] := by
  suffices hloop : ∃ r, (cells ADDRMAN_TRIED_BUCKET_COUNT).foldlM (s.checkTriedCell h) s.setTried =
      .ok r ∧ r.Perm [] by
    obtain ⟨r, hr, hperm⟩ := hloop
    rw [hr, hperm.eq_nil]
  refine Loop.foldlM_rule
    (fun left (setTried : List Nat) =>
      setTried.Perm (left.filterMap fun cell => s.vvTried cell.1 cell.2))
    ?_ (setTried_perm ht)
  · intro cell left setTried hperm
    rw [checkTriedCell]
    cases hcell : s.vvTried cell.1 cell.2 with
    | none =>
      rw [filterMap_cons, hcell] at hperm
      exact ⟨setTried, rfl, hperm⟩
    | some n =>
      rw [filterMap_cons, hcell] at hperm
      obtain ⟨info, hinfo, hflag, htried⟩ := (ht.tried cell n).mp hcell
      have hmem : n ∈ setTried := hperm.mem_iff.mpr mem_cons_self
      have hbucket : h.getTriedBucket s.nKey info.toCService = cell.1 := congrArg Prod.fst htried
      have hposition : h.getBucketPosition s.nKey false cell.1 info.toCService = cell.2 := by
        rw [← hbucket]
        exact congrArg Prod.snd htried
      refine ⟨setTried.erase n, ?_, ?_⟩
      · simp [failUnless, hmem, hinfo, hbucket, hposition]
        rfl
      · have := hperm.erase n
        rwa [erase_cons_head] at this

/-! ## The new buckets -/

def refsIn (s : CAddrMan) (n : Nat) (left : List (Nat × Nat)) : Nat :=
  left.countP fun cell => s.vvNew cell.1 cell.2 = some n

lemma refsIn_cells (ht : Tables h s fun _ => False) (hinfo : s.mapInfo.find? n = some info) :
    (s.refsIn n (cells ADDRMAN_NEW_BUCKET_COUNT) : Int) = info.nRefCount := by
  have hplaces : s.vvNew.placesIn n ADDRMAN_NEW_BUCKET_COUNT ADDRMAN_BUCKET_SIZE =
      s.vvNew.places n := by
    ext cell
    rw [Buckets.mem_placesIn, Buckets.mem_places]
  rw [ht.references n info hinfo, ← hplaces, ← countP_cells]
  rfl

/-- What the check has in hand: the ids of which references are left, with their number. -/
def Remaining (s : CAddrMan) (left : List (Nat × Nat)) (mapNew : List (Nat × Int)) : Prop :=
  ∀ n c, (n, c) ∈ mapNew ↔ c = s.refsIn n left ∧ 0 < c

lemma remaining_mapNew (ht : Tables h s fun _ => False) :
    Remaining s (cells ADDRMAN_NEW_BUCKET_COUNT) s.mapNew := by
  intro n c
  have hmem : (n, c) ∈ s.mapNew ↔
      ∃ info, s.mapInfo.find? n = some info ∧ info.fInTried = false ∧ info.nRefCount = c := by
    simp [mapNew, OrderedMap.find?_eq_some_iff, and_assoc]
  rw [hmem]
  constructor
  · rintro ⟨info, hinfo, hflag, rfl⟩
    have hrefs := refsIn_cells ht hinfo
    have hheld := ht.held n info hinfo hflag id
    omega
  · rintro ⟨hc, hpos⟩
    have hcount : 0 < s.refsIn n (cells ADDRMAN_NEW_BUCKET_COUNT) := by omega
    obtain ⟨cell, -, hcell⟩ := countP_pos_iff.mp hcount
    obtain ⟨-, info, hinfo, hflag, -⟩ := ht.new cell.1 cell.2 n (of_decide_eq_true hcell)
    exact ⟨info, hinfo, hflag, by rw [hc, refsIn_cells ht hinfo]⟩

variable {mapNew : List (Nat × Int)} {nId : Nat}

lemma mem_countDown {c : Int} :
    (n, c) ∈ countDown mapNew nId ↔
      if n = nId then (n, c + 1) ∈ mapNew ∧ c ≠ 0 else (n, c) ∈ mapNew := by
  simp only [countDown, mem_filter, mem_map, Prod.exists]
  split_ifs with hn
  · constructor
    · rintro ⟨⟨m, d, hmem, heq⟩, hzero⟩
      grind
    · rintro ⟨hmem, hzero⟩
      exact ⟨⟨n, c + 1, hmem, by simp [hn]⟩, by simp [hzero]⟩
  · constructor
    · rintro ⟨⟨m, d, hmem, heq⟩, -⟩
      grind
    · intro hmem
      exact ⟨⟨n, c, hmem, by simp [hn]⟩, by simp [hn]⟩

lemma Remaining.countDown {left : List (Nat × Nat)} (hr : Remaining s (cell :: left) mapNew)
    (hcell : s.vvNew cell.1 cell.2 = some nId) :
    Remaining s left (CAddrMan.countDown mapNew nId) := by
  intro n c
  have hother (hn : n ≠ nId) : s.refsIn n (cell :: left) = s.refsIn n left := by
    simp [refsIn, hcell, Ne.symm hn]
  have hsame : s.refsIn nId (cell :: left) = s.refsIn nId left + 1 := by
    simp [refsIn, hcell]
  have hold := hr n c
  have holdSucc := hr n (c + 1)
  rw [mem_countDown]
  split_ifs with hn
  · subst hn
    rw [holdSucc, hsame]
    omega
  · rw [hold, hother hn]

lemma checkNew_eq_ok (ht : Tables h s fun _ => False) :
    (cells ADDRMAN_NEW_BUCKET_COUNT).foldlM (s.checkNewCell h) s.mapNew = .ok [] := by
  suffices hloop : ∃ r, (cells ADDRMAN_NEW_BUCKET_COUNT).foldlM (s.checkNewCell h) s.mapNew =
      .ok r ∧ Remaining s [] r by
    obtain ⟨r, hr, hnone⟩ := hloop
    have hempty : r = [] := by
      refine eq_nil_iff_forall_not_mem.mpr fun e he => ?_
      have := (hnone e.1 e.2).mp he
      simp [refsIn] at this
      omega
    rw [hr, hempty]
  refine Loop.foldlM_rule (Remaining s) ?_ (remaining_mapNew ht)
  · intro cell left mapNew hremaining
    rw [checkNewCell]
    cases hcell : s.vvNew cell.1 cell.2 with
    | none =>
      refine ⟨mapNew, rfl, fun n c => ?_⟩
      rw [hremaining, refsIn, refsIn, countP_cons_of_neg (by simp [hcell])]
    | some n =>
      obtain ⟨-, info, hinfo, -, hposition⟩ := ht.new cell.1 cell.2 n hcell
      have hmem : (n, (s.refsIn n (cell :: left) : Int)) ∈ mapNew := by
        refine (hremaining n _).mpr ⟨rfl, ?_⟩
        simp [refsIn, hcell]
      have hany : (mapNew.any fun e => e.1 = n) = true :=
        any_eq_true.mpr ⟨_, hmem, by simp⟩
      refine ⟨CAddrMan.countDown mapNew n, ?_, hremaining.countDown hcell⟩
      simp [hany, hinfo, hposition, failUnless]
      rfl

/-! ## The check -/

lemma check_eq_zero (hc : Consistent h s) : s.check_ h = 0 := by
  have hs := hc.sound
  have htriedCount : (s.setTried.length : Int) = s.nTried := by
    rw [hs.triedCount, OrderedMap.count, countP_eq_length_filter, setTried, length_map]
  have hnewCount : (s.mapNew.length : Int) = s.nNew := by
    have := hs.newCount
    rw [OrderedMap.count, countP_eq_length_filter] at this
    rw [mapNew, length_map]
    omega
  have hinfos : (s.mapInfo.entries.forM fun e => s.checkInfo e.1 e.2) = .ok () :=
    forM_eq_ok fun e he => checkInfo_eq_ok hs (OrderedMap.find?_eq_some_iff.mpr he)
  have hall : s.checkAll h = .ok () := by
    simp only [checkAll, failUnless_true (decide_eq_true (length_vRandom hs)), hinfos,
      failUnless_true (decide_eq_true htriedCount), failUnless_true (decide_eq_true hnewCount),
      checkTried_eq_ok hs.tables, checkNew_eq_ok hs.tables]
    exact failUnless_true (decide_eq_true hc.key)
  rw [check_, hall]

end CAddrMan

end Jumpcoin
