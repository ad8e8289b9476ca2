import Jumpcoin.Net.AddrSteps

/-!
# The operations of the address manager

Between two operations a manager has no loose entries, its counters are right and its key is not
zero. Every operation succeeds on such a manager and leaves such a manager.
-/

namespace Jumpcoin

open Option

namespace CAddrMan

variable {h : AddrHashes} {s s' : CAddrMan} {loose loose' : Nat → Prop} {k : Int} {nId : Nat}

structure Consistent (h : AddrHashes) (s : CAddrMan) : Prop where
  sound : Sound h s (fun _ => False) 0
  key : s.nKey ≠ 0

/-- An operation that leaves the key alone. -/
lemma Consistent.after (hc : Consistent h s) (hs : Sound h s' (fun _ => False) 0)
    (hkey : s'.nKey = s.nKey) : Consistent h s' :=
  ⟨hs, hkey ▸ hc.key⟩

/-- Ids may be skipped, and the time of the last success does not matter. -/
lemma Sound.skipIds (hs : Sound h s loose k) (nLastGood : Int64) {nIdCount : Nat}
    (hle : s.nIdCount ≤ nIdCount) (hlt : nIdCount < 2 ^ 31) :
    Sound h { s with nIdCount := nIdCount, nLastGood := nLastGood } loose k :=
  ⟨hs.tables.congr (find?_eq_map s) rfl rfl rfl rfl, hs.listed.congr rfl fun _ => rfl,
    hs.triedCount, hs.newCount, fun n info hn => (hs.fresh n info hn).trans_le hle, hlt⟩

/-- An entry with references is not loose. -/
lemma Sound.settle (hs : Sound h s loose k)
    (hloose : ∀ n info, s.mapInfo.find? n = some info → info.fInTried = false → loose n →
      loose' n ∨ info.nRefCount ≠ 0) : Sound h s loose' k := by
  have ht := hs.tables
  refine ⟨⟨ht.valid, ht.references, fun n info hn hflag hl => ?_, ht.address, ht.tried, ht.new⟩,
    hs.listed, hs.triedCount, hs.newCount, hs.fresh, hs.idCount⟩
  by_cases hold : loose n
  · exact (hloose n info hn hflag hold).resolve_left hl
  · exact ht.held n info hn hflag hold

/-! ## Look-up -/

variable {info : CAddrInfo} {f : CAddrInfo → CAddrInfo} {ip : CNetAddr}

lemma find?_modifyInfo_self (hinfo : s.mapInfo.find? nId = some info) :
    (s.modifyInfo nId f).mapInfo.find? nId = some (f info) := by
  simp [hinfo]

lemma find?_of_find (hfind : s.find ip = some (nId, info)) :
    s.mapAddr ip = some nId ∧ s.mapInfo.find? nId = some info := by
  simp only [find, bind_eq_bind, bind_eq_some_iff] at hfind
  obtain ⟨n, hn, i, hi, heq⟩ := hfind
  cases heq
  exact ⟨hn, hi⟩

lemma Tables.mapAddr_of_find_none (ht : Tables h s loose)
    (hfind : s.find ip = none) : s.mapAddr ip = none := by
  cases hip : s.mapAddr ip with
  | none => rfl
  | some n =>
    obtain ⟨info, hinfo, -⟩ := (ht.address ip n).mp hip
    simp [find, hip, hinfo] at hfind

/-! ## Updates of one entry -/

/-- A change that leaves the place of an entry alone. -/
structure Harmless (f : CAddrInfo → CAddrInfo) : Prop where
  valid : ∀ info, info.Valid → (f info).Valid
  service : ∀ info, (f info).toCService = info.toCService
  nRefCount : ∀ info, (f info).nRefCount = info.nRefCount
  fInTried : ∀ info, (f info).fInTried = info.fInTried
  nRandomPos : ∀ info, (f info).nRandomPos = info.nRandomPos

lemma Sound.modifyHarmless (hs : Sound h s loose k) (hinfo : s.mapInfo.find? nId = some info)
    (hf : Harmless f) : Sound h (s.modifyInfo nId f) loose k :=
  hs.modifyInfo hinfo (hf.valid info (hs.tables.valid nId info hinfo)) (hf.service info)
    (hf.nRefCount info) (hf.fInTried info) (hf.nRandomPos info)

lemma update_spec (hc : Consistent h s) (addr : CService) (hf : Harmless f) :
    Consistent h (s.update addr f) := by
  rw [update]
  split
  · exact hc
  · rename_i nId info hfind
    split_ifs
    · exact hc
    · exact hc.after (hc.sound.modifyHarmless (find?_of_find hfind).2 hf) rfl

variable {nTime : Int64} {addr : CAddress}

section

variable (hc : Consistent h s) (addr : CService)
include hc

lemma attempt_spec (fCountFailure : Bool)
    (htime : 0 ≤ nTime.toInt) : Consistent h (s.attempt_ addr fCountFailure nTime) := by
  apply update_spec hc
  refine ⟨fun info hv => ?_, fun info => ?_, fun info => ?_, fun info => ?_, fun info => ?_⟩
  · split_ifs <;> exact ⟨htime, hv.lastSuccess, hv.success, hv.bound⟩
  all_goals split_ifs <;> rfl

lemma connected_spec (nTime : Int64) : Consistent h (s.connected_ addr nTime) := by
  apply update_spec hc
  refine ⟨fun info hv => ?_, fun info => ?_, fun info => ?_, fun info => ?_, fun info => ?_⟩
  · split_ifs
    · exact ⟨hv.lastTry, hv.lastSuccess, hv.success, hv.bound⟩
    · exact hv
  all_goals split_ifs <;> rfl

lemma setServices_spec (nServices : UInt64) : Consistent h (s.setServices_ addr nServices) :=
  update_spec hc addr ⟨fun _ hv => ⟨hv.lastTry, hv.lastSuccess, hv.success, hv.bound⟩,
    fun _ => rfl, fun _ => rfl, fun _ => rfl, fun _ => rfl⟩

end

/-! ## Good -/

lemma ne_zero_of_pos (htime : 0 < nTime.toInt) : nTime ≠ 0 := by
  rintro rfl
  simp at htime

lemma harmless_noteSuccess (htime : 0 < nTime.toInt) : Harmless (noteSuccess nTime) :=
  ⟨fun _ hv => ⟨htime.le, htime.le, fun _ => ne_zero_of_pos htime, hv.bound⟩, fun _ => rfl,
    fun _ => rfl, fun _ => rfl, fun _ => rfl⟩

lemma good_spec (hc : Consistent h s) (addr : CService) (nRnd : Nat) (htime : 0 < nTime.toInt) :
    ∃ s', s.good_ h addr nTime nRnd = some s' ∧ Consistent h s' := by
  have hs : Sound h { s with nLastGood := nTime } (fun _ => False) 0 :=
    hc.sound.skipIds nTime le_rfl hc.sound.idCount
  simp only [good_]
  split
  · exact ⟨_, rfl, hs, hc.key⟩
  · rename_i nId info hfind
    have hinfo := (find?_of_find hfind).2
    split_ifs with hservice htried hplace
    · exact ⟨_, rfl, hs, hc.key⟩
    all_goals
      have hs₁ := hs.modifyHarmless hinfo (harmless_noteSuccess htime)
    · exact ⟨_, rfl, hs₁, hc.key⟩
    · obtain ⟨s', hmake, hs', hkey, -⟩ := makeTried_spec hs₁ (find?_modifyInfo_self hinfo)
        (Bool.eq_false_iff.mpr htried) (ne_zero_of_pos htime)
      exact ⟨s', hmake, hs', hkey ▸ hc.key⟩
    · exact ⟨_, rfl, hs₁, hc.key⟩

/-! ## Add -/

/-- A new entry, which has no place yet and is not counted. -/
lemma enter_spec (hs : Sound h s loose k) (info : CAddrInfo) (hid : s.mapInfo.find? nId = none)
    (hip : s.mapAddr info.ip = none) (hvalid : info.Valid) (hflag : info.fInTried = false)
    (hcount : info.nRefCount = 0) (hlt : nId < s.nIdCount) :
    Sound h (s.enter nId info) (fun n => loose n ∨ n = nId) (k + 1) := by
  have hpos : s.pos? nId = none := by simp [pos?, hid]
  have hcount' (p : CAddrInfo → Bool) := OrderedMap.count_set (p := p)
    (a := { info with nRandomPos := s.vRandom.length }) hid
  have htriedCount := hs.triedCount
  have hnewCount := hs.newCount
  have hafter (n : Nat) : (s.enter nId info).mapInfo.find? n =
      if n = nId then some { info with nRandomPos := s.vRandom.length } else s.mapInfo.find? n :=
    OrderedMap.find?_set
  refine ⟨?_, ?_, ?_, ?_, ?_, hs.idCount⟩
  · refine hs.tables.enter hid ?_ ?_ ?_ ?_ hafter (fun ip => rfl) rfl rfl rfl (fun n => .inl)
      (.inr rfl)
    · exact hip
    · exact ⟨hvalid.lastTry, hvalid.lastSuccess, hvalid.success, hvalid.bound⟩
    · exact hflag
    · exact hcount
  · refine hs.listed.push hpos rfl fun n => ?_
    simp only [pos?, hafter]
    split_ifs <;> rfl
  · simp only [enter, hcount']
    simpa [hflag] using htriedCount
  · simp only [enter, hcount']
    simp [hflag]
    omega
  · intro n i hn
    have := hs.fresh n i
    have hidCount : (s.enter nId info).nIdCount = s.nIdCount := rfl
    grind

/-- An entry gets a reference; if there is no room for one without references, it goes. -/
lemma insertNew_spec (hs : Sound h s (· = nId) 0) (hinfo : s.mapInfo.find? nId = some info)
    (hflag : info.fInTried = false) (hbound : info.nRefCount < ADDRMAN_NEW_BUCKETS_PER_ADDRESS)
    (source : CNetAddr) (nNow : Int) :
    ∃ s', s.insertNew h nId source nNow = some s' ∧ Sound h s' (fun _ => False) 0 ∧
      s'.nKey = s.nKey := by
  set b := h.getNewBucket s.nKey info.ip source with hb
  set p := h.getBucketPosition s.nKey true b info.toCService with hp
  have hb' : b < ADDRMAN_NEW_BUCKET_COUNT := Nat.mod_lt _ (by decide)
  -- a reference in the place, once it is free
  have hplace {s₁ : CAddrMan} {q : Int} (hs₁ : Sound h s₁ (· = nId) 0) (hkey : s₁.nKey = s.nKey)
      (hinfo₁ : s₁.mapInfo.find? nId = some { info with nRandomPos := q })
      (hfree : s₁.vvNew b p = none) : Sound h (s₁.addReference nId b p) (fun _ => False) 0 :=
    hs₁.modify (hs₁.tables.addReference hinfo₁ hflag hb' (by rw [hkey, hp]) hfree hbound
      fun n hn hl => hn hl) hinfo₁ (f := fun info => { info with nRefCount := info.nRefCount + 1 })
      rfl rfl rfl rfl rfl rfl
  -- or references that are there already
  have hstays (hcount : info.nRefCount ≠ 0) : Sound h s (fun _ => False) 0 := by
    refine hs.settle fun n i hn _ hl => .inr ?_
    rw [hl, hinfo] at hn
    cases hn
    exact hcount
  simp only [insertNew, hinfo, bind_eq_bind, bind_some, ← hb, ← hp]
  split
  · rename_i hfree
    exact ⟨_, rfl, hplace hs rfl hinfo hfree, rfl⟩
  · rename_i nIdExisting hcell
    by_cases hsame : nIdExisting = nId
    · have hrefs := hs.tables.references nId info hinfo
      have hcard : 0 < (s.vvNew.places nId).card :=
        Finset.card_pos.mpr ⟨_, hs.tables.mem_places (hsame ▸ hcell)⟩
      exact ⟨s, by simp [hsame], hstays (by omega), rfl⟩
    · obtain ⟨-, infoExisting, hexisting, -⟩ := hs.tables.new b p nIdExisting hcell
      simp only [hsame, hexisting, bind_some, if_false]
      split_ifs with hway hzero
      · obtain ⟨s₁, hclear, hs₁, hsame₁, hvvNew, hkeeps⟩ := clearNew_spec hs b p
        obtain ⟨q, hinfo₁⟩ := hkeeps nId (by rw [hcell]; simpa using hsame) info hinfo
        refine ⟨s₁.addReference nId b p, by rw [hclear]; rfl, hplace hs₁ hsame₁.nKey hinfo₁ ?_,
          hsame₁.nKey⟩
        simp [hvvNew, Buckets.put]
      · obtain ⟨s', hdelete, hs', hsame', -, hgone, -⟩ := delete_spec hs hinfo hflag hzero
        refine ⟨s', hdelete, hs'.mono fun n i hn hl => ?_, hsame'.nKey⟩
        rw [hl, hgone] at hn
        cases hn
      · exact ⟨s, rfl, hstays hzero, rfl⟩

lemma harmless_refresh (addr : CAddress) (nTimePenalty nNow : Int) :
    Harmless (refresh · addr nTimePenalty nNow) :=
  ⟨fun _ hv => ⟨hv.lastTry, hv.lastSuccess, hv.success, hv.bound⟩, fun _ => rfl, fun _ => rfl,
    fun _ => rfl, fun _ => rfl⟩

lemma harmless_penalize (nTimePenalty : Int) :
    Harmless fun info => { info with nTime := penalize nTimePenalty info.nTime } :=
  ⟨fun _ hv => ⟨hv.lastTry, hv.lastSuccess, hv.success, hv.bound⟩, fun _ => rfl, fun _ => rfl,
    fun _ => rfl, fun _ => rfl⟩

lemma add_known_spec (hc : Consistent h s) (hfind : s.find addr.ip = some (nId, info))
    (source : CNetAddr) (nTimePenalty nNow : Int) (nRandom : Nat) :
    ∃ r, s.add_ h addr source nTimePenalty nNow nRandom = some r ∧ Consistent h r.2 := by
  have hinfo := (find?_of_find hfind).2
  set info' := refresh info addr nTimePenalty nNow with hinfo'
  have hf := harmless_refresh addr nTimePenalty nNow
  have hs : Sound h (s.modifyInfo nId fun _ => info') (fun _ => False) 0 :=
    hc.sound.modifyInfo hinfo (hf.valid info (hc.sound.tables.valid nId info hinfo))
      (hf.service info) (hf.nRefCount info) (hf.fInTried info) (hf.nRandomPos info)
  have hfound : (s.modifyInfo nId fun _ => info').mapInfo.find? nId = some info' :=
    find?_modifyInfo_self hinfo
  simp only [add_, hfind, ← hinfo']
  split_ifs with hroutable hkeeps
  · exact ⟨_, rfl, hc⟩
  · exact ⟨_, rfl, hs, hc.key⟩
  · simp only [keepsReferences, Bool.or_eq_true, decide_eq_true_eq, not_or] at hkeeps
    obtain ⟨⟨⟨-, hflag⟩, hrefs⟩, -⟩ := hkeeps
    have hbound := (hs.tables.valid nId info' hfound).bound
    obtain ⟨s', hinsert, hs', hkey⟩ := insertNew_spec (hs.mono fun _ _ _ hl => hl.elim) hfound
      (Bool.eq_false_iff.mpr hflag) (by omega) source nNow
    exact ⟨(false, s'), congrArg (Option.map (false, ·)) hinsert, hs', hkey ▸ hc.key⟩

lemma add_unknown_spec (hc : Consistent h s) (hfind : s.find addr.ip = none)
    (hcount : s.nIdCount < 2 ^ 31 - 1) (source : CNetAddr) (nTimePenalty nNow : Int)
    (nRandom : Nat) :
    ∃ r, s.add_ h addr source nTimePenalty nNow nRandom = some r ∧ Consistent h r.2 := by
  have hs : Sound h { s with nIdCount := s.nIdCount + 1 } (fun _ => False) 0 :=
    hc.sound.skipIds s.nLastGood (Nat.le_succ _) (by omega)
  have hs₁ := enter_spec hs (.new addr source) hc.sound.find?_nIdCount
    (hc.sound.tables.mapAddr_of_find_none hfind) ⟨by simp [CAddrInfo.new], by simp [CAddrInfo.new],
      by simp [CAddrInfo.new], by simp [CAddrInfo.new, ADDRMAN_NEW_BUCKETS_PER_ADDRESS]⟩ rfl rfl
        (Nat.lt_succ_self _)
  have hinfo₁ : ({ s with nIdCount := s.nIdCount + 1 }.enter s.nIdCount
      (.new addr source)).mapInfo.find? s.nIdCount =
        some { CAddrInfo.new addr source with nRandomPos := s.vRandom.length } := by
    simp [enter]
  have hs₂ := (hs₁.modifyHarmless hinfo₁ (harmless_penalize nTimePenalty)).recount 1
  obtain ⟨s', hinsert, hs', hkey⟩ := insertNew_spec
    (hs₂.mono fun n _ _ hl => hl.resolve_left id) (find?_modifyInfo_self hinfo₁) rfl
    (by simp [CAddrInfo.new, ADDRMAN_NEW_BUCKETS_PER_ADDRESS]) source nNow
  simp only [add_, hfind, create, if_pos hcount, bind_eq_bind, bind_some]
  split_ifs
  · exact ⟨_, rfl, hc⟩
  · exact ⟨(true, s'), congrArg (Option.map (true, ·)) hinsert, hs', hkey ▸ hc.key⟩

lemma add_spec (hc : Consistent h s) (hcount : s.nIdCount < 2 ^ 31 - 1) (addr : CAddress)
    (source : CNetAddr) (nTimePenalty nNow : Int) (nRandom : Nat) :
    ∃ r, s.add_ h addr source nTimePenalty nNow nRandom = some r ∧ Consistent h r.2 := by
  cases hfind : s.find addr.ip with
  | none => exact add_unknown_spec hc hfind hcount source nTimePenalty nNow nRandom
  | some found => exact add_known_spec hc hfind source nTimePenalty nNow nRandom

/-! ## Selection -/

lemma getAddrLoop_spec (nNow : Int) (random : Nat → Nat) (nNodes turns n : Nat)
    (hs : Sound h s loose k) (hlength : n + turns = s.vRandom.length) (vAddr : List CAddress) :
    ∃ vAddr' s', getAddrLoop nNow random nNodes turns n s vAddr = some (vAddr', s') ∧
      Sound h s' loose k ∧ s'.nKey = s.nKey := by
  induction turns generalizing n s vAddr with
  | zero => exact ⟨vAddr, s, rfl, hs, rfl⟩
  | succ turns ih =>
    rw [getAddrLoop]
    split_ifs
    · exact ⟨vAddr, s, rfl, hs, rfl⟩
    have hn : n < s.vRandom.length := by omega
    have hmod : random n % (s.vRandom.length - n) < s.vRandom.length - n :=
      Nat.mod_lt _ (by omega)
    obtain ⟨s₁, hswap, hlisted, hreorders, -⟩ :=
      swapRandom_spec hs.listed hn (by omega : random n % (s.vRandom.length - n) + n < _)
    have hs₁ := hs.reorder hlisted hreorders
    have hn₁ : n < s₁.vRandom.length := hreorders.length ▸ hn
    have hlive : s₁.Live s₁.vRandom[n] := hlisted.indexed.mem_iff.mp (List.getElem_mem hn₁)
    obtain ⟨ai, hai⟩ := hlive.find?
    obtain ⟨vAddr', s', hloop, hs', hkey⟩ := ih (n + 1) hs₁ (by rw [hreorders.length]; omega)
      (if ai.isTerrible nNow then vAddr else vAddr ++ [ai.toCAddress])
    refine ⟨vAddr', s', ?_, hs', hkey.trans (by rw [hreorders.rest])⟩
    simp only [hswap, bind_eq_bind, bind_some, List.getElem?_eq_getElem hn₁, hai]
    exact hloop

lemma getAddr_spec (hc : Consistent h s) (nNow : Int) (random : Nat → Nat) :
    ∃ r, s.getAddr_ nNow random = some r ∧ Consistent h r.2 := by
  obtain ⟨vAddr, s', hloop, hs', hkey⟩ := getAddrLoop_spec nNow random
    (min (ADDRMAN_GETADDR_MAX_PCT * s.vRandom.length / 100) ADDRMAN_GETADDR_MAX)
    s.vRandom.length 0 hc.sound (Nat.zero_add _) []
  exact ⟨(vAddr, s'), hloop, hc.after hs' hkey⟩

end CAddrMan

end Jumpcoin
