import Jumpcoin.Net.AddrTables

/-!
# Removal and promotion in the address manager

A manager is sound if its tables are coherent, `vRandom` lists its ids and the counters are right.
Within an operation, some entries may be loose and some not counted as new. The steps of which the
operations are made succeed on a sound manager and leave it sound.
-/

namespace Jumpcoin

open List OrderedMap

namespace CAddrMan

open BackIndex

variable {h : AddrHashes} {s s' : CAddrMan} {loose loose' : Nat → Prop} {k : Int} {nId : Nat}

/-! ## The list of ids -/

def pos? (s : CAddrMan) (n : Nat) : Option Int := (s.mapInfo.find? n).map CAddrInfo.nRandomPos

def Live (s : CAddrMan) (n : Nat) : Prop := (s.pos? n).isSome

def randomPos (s : CAddrMan) (n : Nat) : Nat := ((s.pos? n).getD 0).toNat

lemma Live.find? {n : Nat} (h : s.Live n) : ∃ info, s.mapInfo.find? n = some info := by
  simpa [Live, pos?, Option.isSome_iff_exists] using h

structure Listed (s : CAddrMan) : Prop where
  nonneg : ∀ n q, s.pos? n = some q → 0 ≤ q
  indexed : Indexed s.vRandom s.Live s.randomPos

namespace Listed

lemma getElem? (hl : Listed s) {n : Nat} {info : CAddrInfo}
    (hinfo : s.mapInfo.find? n = some info) : s.vRandom[info.nRandomPos.toNat]? = some n := by
  have hpos : s.pos? n = some info.nRandomPos := by simp [pos?, hinfo]
  exact (hl.indexed _ n).mpr ⟨by simp [Live, hpos], by simp [randomPos, hpos]⟩

lemma congr (hl : Listed s) (hrandom : s'.vRandom = s.vRandom)
    (hpos : ∀ n, s'.pos? n = s.pos? n) : Listed s' := by
  refine ⟨fun n q hq => hl.nonneg n q (hpos n ▸ hq), ?_⟩
  rw [hrandom]
  exact hl.indexed.congr (fun n => by simp [Live, hpos]) fun n _ => by simp [randomPos, hpos]

lemma push (hl : Listed s) (hid : s.pos? nId = none) (hrandom : s'.vRandom = s.vRandom ++ [nId])
    (hpos : ∀ n, s'.pos? n = if n = nId then some (s.vRandom.length : Int) else s.pos? n) :
    Listed s' := by
  refine ⟨fun n q hq => ?_, ?_⟩
  · have := hl.nonneg n q
    grind
  · rw [hrandom]
    refine hl.indexed.push (a := nId) (by simp [Live, hid]) (fun n => ?_) (fun n hn => ?_) ?_
    · simp only [Live, hpos]
      grind
    · simp only [Live] at hn
      simp only [randomPos, hpos]
      grind
    · simp [randomPos, hpos]

lemma pop (hl : Listed s) (hlast : s.vRandom.getLast? = some nId)
    (hrandom : s'.vRandom = s.vRandom.dropLast)
    (hpos : ∀ n, s'.pos? n = if n = nId then none else s.pos? n) : Listed s' := by
  refine ⟨fun n q hq => ?_, ?_⟩
  · have := hl.nonneg n q
    grind
  · rw [hrandom]
    refine hl.indexed.pop hlast (fun n => ?_) fun n hn hne => ?_
    · simp only [Live, hpos]
      grind
    · simp [randomPos, hpos, hne]

lemma swap (hl : Listed s) {i j n m : Nat} (hi : s.vRandom[i]? = some n)
    (hj : s.vRandom[j]? = some m) (hrandom : s'.vRandom = BackIndex.swap s.vRandom i j)
    (hpos : ∀ c, s'.pos? c =
      if c = m then some (i : Int) else if c = n then some (j : Int) else s.pos? c) :
    Listed s' := by
  obtain ⟨hn, rfl⟩ := (hl.indexed i n).mp hi
  obtain ⟨hm, rfl⟩ := (hl.indexed j m).mp hj
  have hlive (c : Nat) : s'.Live c ↔ s.Live c := by
    simp only [Live, hpos] at hn hm ⊢
    grind
  refine ⟨fun c q hq => ?_, ?_⟩
  · have := hl.nonneg c q
    grind
  · rw [hrandom]
    refine (hl.indexed.swap hn hm ?_ ?_ fun c hc hcn hcm => ?_).congr hlive fun c _ => rfl
    · have hsame : n = m → s.randomPos n = s.randomPos m := fun h => by rw [h]
      simp only [randomPos, hpos] at hsame ⊢
      grind
    · have hm' : s'.pos? m = some (s.randomPos n : Int) := by simp [hpos]
      rw [randomPos, hm']
      rfl
    · simp [randomPos, hpos, hcn, hcm]

end Listed

structure Reorders (s s' : CAddrMan) : Prop where
  entry : ∃ pos : Nat → Int, ∀ n, s'.mapInfo.find? n =
    (s.mapInfo.find? n).map fun info => { info with nRandomPos := pos n }
  count : ∀ p : CAddrInfo → Bool, (∀ info q, p { info with nRandomPos := q } = p info) →
    s'.mapInfo.count p = s.mapInfo.count p
  length : s'.vRandom.length = s.vRandom.length
  rest : s' = { s with mapInfo := s'.mapInfo, vRandom := s'.vRandom }

lemma find?_eq_map (s : CAddrMan) (n : Nat) : s.mapInfo.find? n =
    (s.mapInfo.find? n).map fun info => { info with nRandomPos := (s.pos? n).getD 0 } := by
  cases hn : s.mapInfo.find? n <;> simp [pos?, hn]

lemma Reorders.refl (s : CAddrMan) : Reorders s s :=
  ⟨⟨_, find?_eq_map s⟩, fun _ _ => rfl, rfl, rfl⟩

lemma swapRandom_spec (hl : Listed s) {i j : Nat} (hi : i < s.vRandom.length)
    (hj : j < s.vRandom.length) : ∃ s', s.swapRandom i j = some s' ∧ Listed s' ∧ Reorders s s' ∧
      s'.vRandom[j]? = s.vRandom[i]? := by
  by_cases hij : i = j
  · subst hij
    exact ⟨s, by simp [swapRandom], hl, .refl s, rfl⟩
  obtain ⟨n, hn⟩ : ∃ n, s.vRandom[i]? = some n := ⟨_, getElem?_eq_getElem hi⟩
  obtain ⟨m, hm⟩ : ∃ m, s.vRandom[j]? = some m := ⟨_, getElem?_eq_getElem hj⟩
  obtain ⟨hnlive, hnpos⟩ := (hl.indexed i n).mp hn
  obtain ⟨hmlive, hmpos⟩ := (hl.indexed j m).mp hm
  have hne : n ≠ m := by
    rintro rfl
    exact hij (hnpos.symm.trans hmpos)
  obtain ⟨infon, hinfon⟩ := hnlive.find?
  obtain ⟨infom, hinfom⟩ := hmlive.find?
  have hswap : s.swapRandom i j = some
      { (s.modifyInfo n fun info => { info with nRandomPos := j }).modifyInfo m
          fun info => { info with nRandomPos := i } with
        vRandom := BackIndex.swap s.vRandom i j } := by
    simp [swapRandom, hij, hn, hm, hinfon, hinfom]
  refine ⟨_, hswap, hl.swap hn hm rfl fun c => ?_, ⟨⟨fun c => if c = m then i else if c = n then j
    else (s.pos? c).getD 0, fun c => ?_⟩, fun p hp => ?_, ?_, rfl⟩, ?_⟩
  · simp only [pos?, find?_modifyInfo]
    grind
  · by_cases hcm : c = m
    · simp [hcm, Ne.symm hne, hinfom]
    · by_cases hcn : c = n
      · simp [hcn, hne, hinfon]
      · cases hc : s.mapInfo.find? c <;> simp [pos?, hc, hcm, hcn]
  · exact (count_modify_of_eq fun info => hp info _).trans
      (count_modify_of_eq fun info => hp info _)
  · simp [BackIndex.swap, hn, hm]
  · simp [BackIndex.swap, hn, hj]

/-! ## Sound managers -/

/-- Coherent tables, a list of the ids and right counters, except that `k` entries are not counted
as new. -/
structure Sound (h : AddrHashes) (s : CAddrMan) (loose : Nat → Prop) (k : Int) : Prop where
  tables : Tables h s loose
  listed : Listed s
  triedCount : s.nTried = s.mapInfo.count CAddrInfo.fInTried
  newCount : s.nNew + k = s.mapInfo.count fun info => !info.fInTried
  fresh : ∀ n info, s.mapInfo.find? n = some info → n < s.nIdCount
  idCount : s.nIdCount < 2 ^ 31

/-- The entry of an id is as before, except for its position in the list. -/
def Keeps (s s' : CAddrMan) (n : Nat) : Prop :=
  ∀ info, s.mapInfo.find? n = some info →
    ∃ q, s'.mapInfo.find? n = some { info with nRandomPos := q }

lemma Keeps.trans {s'' : CAddrMan} {n : Nat} (h₁ : Keeps s s' n) (h₂ : Keeps s' s'' n) :
    Keeps s s'' n := by
  intro info hinfo
  obtain ⟨q, hq⟩ := h₁ info hinfo
  obtain ⟨q', hq'⟩ := h₂ _ hq
  exact ⟨q', hq'⟩

lemma Reorders.keeps (hr : Reorders s s') (n : Nat) : Keeps s s' n := by
  obtain ⟨pos, hpos⟩ := hr.entry
  intro info hinfo
  exact ⟨pos n, by rw [hpos, hinfo]; rfl⟩

lemma Sound.reorder (hs : Sound h s loose k) (hl : Listed s') (hr : Reorders s s') :
    Sound h s' loose k := by
  have hrest := hr.rest
  obtain ⟨pos, hpos⟩ := hr.entry
  refine ⟨hs.tables.congr hpos (by rw [hrest]) (by rw [hrest]) (by rw [hrest]) (by rw [hrest]), hl,
    ?_, ?_, fun n info hn => ?_, by rw [hrest]; exact hs.idCount⟩
  · rw [hr.count _ fun _ _ => rfl, ← hs.triedCount, hrest]
  · rw [hr.count _ fun _ _ => rfl, ← hs.newCount, hrest]
  · rw [hpos, Option.map_eq_some_iff] at hn
    obtain ⟨info', hn, -⟩ := hn
    rw [hrest]
    exact hs.fresh n info' hn

/-- What operations on the new buckets leave alone. -/
structure SameTried (s s' : CAddrMan) : Prop where
  nKey : s'.nKey = s.nKey
  nIdCount : s'.nIdCount = s.nIdCount
  vvTried : s'.vvTried = s.vvTried

lemma Sound.mono (hs : Sound h s loose k)
    (hloose : ∀ n info, s.mapInfo.find? n = some info → loose n → loose' n) : Sound h s loose' k :=
  ⟨hs.tables.mono hloose, hs.listed, hs.triedCount, hs.newCount, hs.fresh, hs.idCount⟩

lemma Sound.find?_nIdCount (hs : Sound h s loose k) : s.mapInfo.find? s.nIdCount = none :=
  Option.eq_none_iff_forall_ne_some.mpr fun info hinfo => lt_irrefl _ (hs.fresh _ info hinfo)

lemma Sound.length_lt (hs : Sound h s loose k) : s.vRandom.length < 2 ^ 32 := by
  have hsub : s.vRandom ⊆ List.range s.nIdCount := by
    intro n hn
    have hlive : s.Live n := hs.listed.indexed.mem_iff.mp hn
    obtain ⟨info, hinfo⟩ := hlive.find?
    exact mem_range.mpr (hs.fresh n info hinfo)
  have hlen := (subperm_of_subset hs.listed.indexed.nodup hsub).length_le
  have := hs.idCount
  rw [length_range] at hlen
  omega

variable {info : CAddrInfo} {f : CAddrInfo → CAddrInfo} {cell : Nat × Nat}

section

variable (hs : Sound h s loose k)
include hs

/-- A change of one entry that leaves its position alone. -/
lemma Sound.modify {k' : Int} (ht : Tables h s' loose') (hinfo : s.mapInfo.find? nId = some info)
    (hpos : (f info).nRandomPos = info.nRandomPos)
    (hmapInfo : s'.mapInfo = s.mapInfo.modify nId f) (hrandom : s'.vRandom = s.vRandom)
    (htried : s'.nTried + info.fInTried.toNat = s.nTried + (f info).fInTried.toNat)
    (hnew : s'.nNew + k' + (!info.fInTried).toNat = s.nNew + k + (!(f info).fInTried).toNat)
    (hidCount : s'.nIdCount = s.nIdCount) : Sound h s' loose' k' := by
  have hcount (p : CAddrInfo → Bool) := count_modify (f := f) (p := p) hinfo
  have htriedCount := hcount CAddrInfo.fInTried
  have hnewCount := hcount fun info => !info.fInTried
  have hsTried := hs.triedCount
  have hsNew := hs.newCount
  refine ⟨ht, hs.listed.congr hrandom fun n => ?_, ?_, ?_, fun n i hn => ?_, hidCount ▸ hs.idCount⟩
  · rw [pos?, pos?, hmapInfo, find?_modify]
    grind
  · rw [hmapInfo]
    omega
  · rw [hmapInfo]
    omega
  · have := hs.fresh n
    rw [hmapInfo, find?_modify] at hn
    grind

lemma Sound.modifyInfo (hinfo : s.mapInfo.find? nId = some info) (hvalid : (f info).Valid)
    (hservice : (f info).toCService = info.toCService)
    (hcount : (f info).nRefCount = info.nRefCount) (hflag : (f info).fInTried = info.fInTried)
    (hpos : (f info).nRandomPos = info.nRandomPos) : Sound h (s.modifyInfo nId f) loose k :=
  hs.modify (hs.tables.modifyInfo hinfo hvalid hservice hcount hflag) hinfo hpos rfl rfl
    (by rw [hflag]; rfl) (by rw [hflag]; rfl) rfl

/-- The counter of new entries is changed. -/
lemma Sound.recount (d : Int) : Sound h { s with nNew := s.nNew + d } loose (k - d) := by
  refine ⟨hs.tables.congr (find?_eq_map s) rfl rfl rfl rfl, hs.listed.congr rfl fun _ => rfl,
    hs.triedCount, ?_, hs.fresh, hs.idCount⟩
  have := hs.newCount
  simp only
  omega

/-! ## Removal -/

/-- An entry without a place is deleted. -/
lemma delete_spec (hinfo : s.mapInfo.find? nId = some info)
    (hflag : info.fInTried = false) (hcount : info.nRefCount = 0) :
    ∃ s', s.delete nId = some s' ∧ Sound h s' loose k ∧
      SameTried s s' ∧ s'.vvNew = s.vvNew ∧ s'.mapInfo.find? nId = none ∧
      ∀ n ≠ nId, Keeps s s' n := by
  have hpos := hs.listed.getElem? hinfo
  have hlt : info.nRandomPos.toNat < s.vRandom.length := (List.getElem?_eq_some_iff.mp hpos).1
  have hlen := hs.length_lt
  have hnonneg : 0 ≤ info.nRandomPos := hs.listed.nonneg nId _ (by simp [pos?, hinfo])
  have hunsigned : toUnsigned info.nRandomPos = info.nRandomPos.toNat := by
    rw [toUnsigned, Int.emod_eq_of_lt hnonneg (by omega)]
  obtain ⟨s₁, hswap, hlisted, hreorders, hlast⟩ :=
    swapRandom_spec hs.listed hlt (by omega : s.vRandom.length - 1 < s.vRandom.length)
  have hs₁ := hs.reorder hlisted hreorders
  obtain ⟨pos, hentry⟩ := hreorders.entry
  have hinfo₁ : s₁.mapInfo.find? nId = some { info with nRandomPos := pos nId } := by
    rw [hentry, hinfo]
    rfl
  have hne : s.vRandom ≠ [] := ne_nil_of_length_pos (by omega)
  have hdelete : s.delete nId = some { s₁ with
      vRandom := s₁.vRandom.dropLast
      mapAddr := fun ip => if ip = info.ip then none else s₁.mapAddr ip
      mapInfo := s₁.mapInfo.erase nId
      nNew := s₁.nNew - 1 } := by
    simp [delete, hinfo, hflag, hcount, hne, hunsigned, hswap, guard]
  have hrest := hreorders.rest
  refine ⟨_, hdelete, ⟨?_, ?_, ?_, ?_, ?_, ?_⟩, ⟨?_, ?_, ?_⟩, ?_, by simp, fun n hn => ?_⟩
  · exact hs₁.tables.erase hinfo₁ hflag hcount (fun n => find?_erase) (fun ip => rfl) rfl
      rfl rfl
  · have hlast' : s₁.vRandom.getLast? = some nId := by
      rw [getLast?_eq_getElem?, hreorders.length, hlast, hpos]
    refine hs₁.listed.pop hlast' rfl fun n => ?_
    simp only [pos?, find?_erase]
    split_ifs <;> rfl
  · have := count_erase (p := CAddrInfo.fInTried) hinfo₁
    have := hs₁.triedCount
    simp only [hflag] at *
    simp at *
    omega
  · have := count_erase (p := fun info => !info.fInTried) hinfo₁
    have := hs₁.newCount
    simp only [hflag] at *
    simp at *
    omega
  · intro n i hn
    simp only [find?_erase] at hn
    split_ifs at hn
    exact hs₁.fresh n i hn
  · exact hs₁.idCount
  · rw [hrest]
  · rw [hrest]
  · rw [hrest]
  · rw [hrest]
  · refine (hreorders.keeps n).trans fun i hi => ⟨i.nRandomPos, ?_⟩
    simp only [find?_erase, hn, if_false]
    exact hi

lemma Sound.dropReference {b p : Nat} (hcell : s.vvNew b p = some nId)
    (hinfo : s.mapInfo.find? nId = some info) (hheld : ¬loose' nId → info.nRefCount ≠ 1)
    (hloose : ∀ n ≠ nId, loose n → loose' n) : Sound h (s.dropReference nId b p) loose' k :=
  hs.modify (hs.tables.dropReference hcell hinfo hheld hloose) hinfo
    (f := fun info => { info with nRefCount := info.nRefCount - 1 }) rfl rfl rfl rfl rfl rfl

end

lemma keeps_modifyInfo {nId n : Nat} (hn : n ≠ nId)
    (hmapInfo : s'.mapInfo = s.mapInfo.modify nId f) : Keeps s s' n := by
  intro info hinfo
  refine ⟨info.nRandomPos, ?_⟩
  rw [hmapInfo, find?_modify, if_neg hn]
  exact hinfo

/-- A place in a new bucket is cleared; an entry that loses its last reference is deleted. -/
lemma clearNew_spec (hs : Sound h s loose k) (b p : Nat) : ∃ s', s.clearNew b p = some s' ∧
    Sound h s' loose k ∧ SameTried s s' ∧ s'.vvNew = s.vvNew.put b p none ∧
      ∀ n, s.vvNew b p ≠ some n → Keeps s s' n := by
  cases hcell : s.vvNew b p with
  | none =>
    refine ⟨s, by simp [clearNew, hcell], hs, ⟨rfl, rfl, rfl⟩, ?_, fun n _ info hinfo => ⟨_, hinfo⟩⟩
    ext b' p'
    simp only [Buckets.put]
    grind
  | some nId =>
    obtain ⟨-, info, hinfo, hflag, -⟩ := hs.tables.new b p nId hcell
    have hrefs := hs.tables.references nId info hinfo
    have hcard : 0 < (s.vvNew.places nId).card :=
      Finset.card_pos.mpr ⟨_, hs.tables.mem_places hcell⟩
    have hpos : 0 < info.nRefCount := by omega
    have hkeeps (n : Nat) (hn : some nId ≠ some n) : Keeps s (s.dropReference nId b p) n :=
      keeps_modifyInfo (f := fun info => { info with nRefCount := info.nRefCount - 1 })
        (fun heq => hn (by rw [heq])) rfl
    by_cases hone : info.nRefCount = 1
    · have hs₁ : Sound h (s.dropReference nId b p) (fun n => loose n ∨ n = nId) k :=
        hs.dropReference hcell hinfo (by simp) fun n _ => .inl
      have hinfo₁ : (s.dropReference nId b p).mapInfo.find? nId =
          some { info with nRefCount := info.nRefCount - 1 } := by
        simp [dropReference, hinfo]
      obtain ⟨s', hdelete, hs', hsame, hvvNew, hgone, hkeeps'⟩ :=
        delete_spec hs₁ hinfo₁ hflag (by simp only; omega)
      refine ⟨s', ?_, hs'.mono fun n i hn hl => ?_, ⟨hsame.nKey, hsame.nIdCount, hsame.vvTried⟩,
        hvvNew, fun n hn => (hkeeps n hn).trans (hkeeps' n fun heq => hn (by rw [heq]))⟩
      · simp [clearNew, hcell, hinfo, hone, guard, hdelete]
      · refine hl.resolve_right fun heq => ?_
        rw [heq, hgone] at hn
        cases hn
    · refine ⟨s.dropReference nId b p, ?_, hs.dropReference hcell hinfo (fun _ => hone)
        fun n _ hl => hl, ⟨rfl, rfl, rfl⟩, rfl, hkeeps⟩
      simp [clearNew, hcell, hinfo, hpos, hone, guard]

/-! ## Promotion -/

/-- An entry leaves new buckets. -/
lemma leaveBuckets_spec (hs : Sound h s loose k)
    (hinfo : s.mapInfo.find? nId = some info) (hnId : loose nId) (buckets : List Nat) :
    let s' := buckets.foldl (leaveBucket h nId info.toCService) s
    Sound h s' loose k ∧ SameTried s s' ∧
      (∃ c, s'.mapInfo.find? nId = some { info with nRefCount := c }) ∧
      ∀ b p, s'.vvNew b p = some nId → s.vvNew b p = some nId ∧ b ∉ buckets := by
  induction buckets generalizing s info with
  | nil => exact ⟨hs, ⟨rfl, rfl, rfl⟩, ⟨info.nRefCount, hinfo⟩, fun b p hp => ⟨hp, by simp⟩⟩
  | cons bucket buckets ih =>
    rw [foldl_cons]
    have hplace {p : Nat} (hold : s.vvNew bucket p = some nId) :
        h.getBucketPosition s.nKey true bucket info.toCService = p := by
      obtain ⟨-, i, hi, -, hpos⟩ := hs.tables.new bucket p nId hold
      rw [hinfo] at hi
      cases hi
      exact hpos
    by_cases hcell : s.vvNew bucket (h.getBucketPosition s.nKey true bucket info.toCService) =
      some nId
    · have hstep : leaveBucket h nId info.toCService s bucket = s.dropReference nId bucket
          (h.getBucketPosition s.nKey true bucket info.toCService) := by
        simp [leaveBucket, hcell]
      rw [hstep]
      have hs₁ := hs.dropReference hcell hinfo (absurd hnId) fun n _ hl => hl
      have hinfo₁ : (s.dropReference nId bucket
          (h.getBucketPosition s.nKey true bucket info.toCService)).mapInfo.find? nId =
            some { info with nRefCount := info.nRefCount - 1 } := by
        simp [dropReference, hinfo]
      obtain ⟨hs', hsame, ⟨c, hentry⟩, hgone⟩ := ih hs₁ hinfo₁
      refine ⟨hs', ⟨hsame.nKey, hsame.nIdCount, hsame.vvTried⟩, ⟨c, hentry⟩, fun b p hp => ?_⟩
      obtain ⟨hold, hnot⟩ := hgone b p hp
      change (if b = bucket ∧ p = _ then none else s.vvNew b p) = some nId at hold
      split_ifs at hold with hhere
      refine ⟨hold, not_mem_cons_of_ne_of_not_mem ?_ hnot⟩
      rintro rfl
      exact hhere ⟨rfl, (hplace hold).symm⟩
    · have hstep : leaveBucket h nId info.toCService s bucket = s := by
        simp [leaveBucket, hcell]
      rw [hstep]
      obtain ⟨hs', hsame, hentry, hgone⟩ := ih hs hinfo
      refine ⟨hs', hsame, hentry, fun b p hp => ?_⟩
      obtain ⟨hold, hnot⟩ := hgone b p hp
      refine ⟨hold, not_mem_cons_of_ne_of_not_mem ?_ hnot⟩
      rintro rfl
      exact hcell (hplace hold ▸ hold)

lemma leaveTried_spec (hs : Sound h s loose k) (hinfo : s.mapInfo.find? nId = some info)
    (hflag : info.fInTried = true) (hcell : triedCell h s info.toCService = cell) :
    Sound h (s.leaveTried nId cell.1 cell.2) (fun n => loose n ∨ n = nId) (k + 1) := by
  have hc : Changes s (s.leaveTried nId cell.1 cell.2) nId info { info with fInTried := false } :=
    ⟨hinfo, (Tables.changes_modifyInfo hinfo rfl).after, rfl, rfl, rfl⟩
  have ht : Tables h (s.leaveTried nId cell.1 cell.2) fun n => loose n ∨ n = nId :=
    hs.tables.demote hc hflag rfl (by rw [hcell]; rfl) (fun n hl => .inl hl) (.inr rfl)
  refine hs.modify (f := fun info => { info with fInTried := false }) ht hinfo rfl rfl rfl ?_ ?_ rfl
  all_goals simp only [leaveTried, CAddrMan.modifyInfo, hflag]; grind

/-- An entry without references and not counted as new becomes a new one. -/
lemma returnToNew_spec (hs : Sound h s (fun n => loose n ∨ n = nId) (k + 1))
    (hinfo : s.mapInfo.find? nId = some info) (hflag : info.fInTried = false)
    (hnone : ∀ b p, s.vvNew b p ≠ some nId) :
    ∃ s', s.returnToNew h nId info = some s' ∧ Sound h s' loose k ∧ SameTried s s' ∧
      ∀ n ≠ nId, (∀ b p, s.vvNew b p ≠ some n) → Keeps s s' n ∧ ∀ b p, s'.vvNew b p ≠ some n := by
  have hcount : info.nRefCount = 0 := hs.tables.nRefCount_eq_zero hinfo hnone
  set b := h.getNewBucket s.nKey info.ip info.source with hb
  set p := h.getBucketPosition s.nKey true b info.toCService with hp
  obtain ⟨s₁, hclear, hs₁, hsame, hvvNew, hkeeps⟩ := clearNew_spec hs b p
  obtain ⟨q, hinfo₁⟩ := hkeeps nId (hnone b p) info hinfo
  have hfree : s₁.vvNew b p = none := by simp [hvvNew, Buckets.put]
  have hb' : b < ADDRMAN_NEW_BUCKET_COUNT := Nat.mod_lt _ (by decide)
  have hp' : h.getBucketPosition s₁.nKey true b info.toCService = p := by rw [hsame.nKey]
  have ht := hs₁.tables.addReference hinfo₁ hflag hb' hp' hfree
    (by simp [hcount, ADDRMAN_NEW_BUCKETS_PER_ADDRESS]) fun n hn hl => hl.resolve_right hn
  have ht₂ : Tables h { s₁.modifyInfo nId fun info => { info with nRefCount := 1 } with
      vvNew := s₁.vvNew.put b p (some nId)
      nNew := s₁.nNew + 1 } loose := by
    refine ht.congr (fun n => (?_ : _ = _).trans (find?_eq_map _ n)) rfl rfl rfl rfl
    simp only [CAddrMan.addReference, find?_modifyInfo]
    split_ifs with hn
    · simp [hn, hinfo₁, hcount]
    · rfl
  have hs₂ := hs₁.recount 1
  rw [add_sub_cancel_right] at hs₂
  refine ⟨_, ?_, hs₂.modify ht₂ hinfo₁ (f := fun info => { info with nRefCount := 1 }) rfl rfl rfl
    rfl rfl rfl, ⟨hsame.nKey, hsame.nIdCount, hsame.vvTried⟩, fun n hn hno => ⟨?_, ?_⟩⟩
  · simp [returnToNew, ← hb, ← hp, hclear, hfree, hinfo₁, guard]
  · exact (hkeeps n (hno b p)).trans
      (keeps_modifyInfo (f := fun info => { info with nRefCount := 1 }) hn rfl)
  · intro b' p'
    simp only [hvvNew, Buckets.put]
    grind

/-- The entry in a tried place goes back to a new bucket. -/
lemma evictTried_spec (hs : Sound h s loose k) (cell : Nat × Nat) :
    ∃ s', s.evictTried h cell.1 cell.2 = some s' ∧ Sound h s' loose k ∧ s'.nKey = s.nKey ∧
      s'.nIdCount = s.nIdCount ∧ s'.vvTried cell.1 cell.2 = none ∧
      ∀ n, s.vvTried cell.1 cell.2 ≠ some n → (∀ b p, s.vvNew b p ≠ some n) →
        Keeps s s' n ∧ ∀ b p, s'.vvNew b p ≠ some n := by
  cases hcell : s.vvTried cell.1 cell.2 with
  | none =>
    exact ⟨s, by simp [evictTried, hcell], hs, rfl, rfl, hcell,
      fun n _ hn => ⟨fun info hinfo => ⟨_, hinfo⟩, hn⟩⟩
  | some nId =>
    obtain ⟨info, hinfo, hflag, htried⟩ := (hs.tables.tried cell nId).mp hcell
    have hs₁ := leaveTried_spec hs hinfo hflag htried
    have hinfo₁ : (s.leaveTried nId cell.1 cell.2).mapInfo.find? nId =
        some { info with fInTried := false } := by simp [leaveTried, hinfo]
    obtain ⟨s', hreturn, hs', hsame, hkeeps⟩ :=
      returnToNew_spec hs₁ hinfo₁ rfl (hs.tables.vvNew_ne_of_tried hinfo hflag)
    refine ⟨s', ?_, hs', hsame.nKey, hsame.nIdCount, ?_, fun n hn hno => ?_⟩
    · simp only [evictTried, hcell, hinfo, Option.bind_eq_bind, Option.bind_some]
      exact hreturn
    · simp [hsame.vvTried, leaveTried, Buckets.put]
    · have hne : n ≠ nId := fun heq => hn (by rw [heq])
      obtain ⟨hkeep, hno'⟩ := hkeeps n hne hno
      exact ⟨Keeps.trans (keeps_modifyInfo (f := fun info => { info with fInTried := false })
        hne rfl) hkeep, hno'⟩

lemma enterTried_spec (hs : Sound h s (· = nId) k) (hinfo : s.mapInfo.find? nId = some info)
    (hflag : info.fInTried = false) (hcount : info.nRefCount = 0) (hsuccess : info.nLastSuccess ≠ 0)
    (hcell : triedCell h s info.toCService = cell) (hfree : s.vvTried cell.1 cell.2 = none) :
    Sound h (s.enterTried nId cell.1 cell.2) (fun _ => False) (k - 1) := by
  have hc : Changes s (s.enterTried nId cell.1 cell.2) nId info { info with fInTried := true } :=
    ⟨hinfo, (Tables.changes_modifyInfo hinfo rfl).after, rfl, rfl, rfl⟩
  have ht : Tables h (s.enterTried nId cell.1 cell.2) fun _ => False :=
    hs.tables.promote hc hcount hsuccess (by rw [hcell]; exact hfree) rfl (by rw [hcell]; rfl)
      fun n hn hl => hn hl
  refine hs.modify (f := fun info => { info with fInTried := true }) ht hinfo rfl rfl rfl ?_ ?_ rfl
  all_goals simp only [enterTried, CAddrMan.modifyInfo, hflag]; grind

lemma moveToTried_spec (hs : Sound h s (· = nId) 0) {c : Int}
    (hinfo : s.mapInfo.find? nId = some { info with nRefCount := c })
    (hflag : info.fInTried = false) (hsuccess : info.nLastSuccess ≠ 0)
    (hnone : ∀ b p, s.vvNew b p ≠ some nId) : ∃ s', s.moveToTried h nId info = some s' ∧
      Sound h s' (fun _ => False) 0 ∧ s'.nKey = s.nKey ∧ s'.nIdCount = s.nIdCount := by
  have hcount : c = 0 := hs.tables.nRefCount_eq_zero hinfo hnone
  subst hcount
  have hs₁ : Sound h { s with nNew := s.nNew - 1 } (· = nId) 1 := hs.recount (-1)
  set cell := triedCell h s info.toCService with hcell
  have hne : s.vvTried cell.1 cell.2 ≠ some nId := by
    intro htried
    obtain ⟨i, hi, htrue, -⟩ := (hs.tables.tried cell nId).mp htried
    rw [hinfo] at hi
    cases hi
    simp [hflag] at htrue
  obtain ⟨s₂, hevict, hs₂, hkey, hidCount, hfree, hkeeps⟩ := evictTried_spec hs₁ cell
  obtain ⟨q, hinfo₂⟩ := (hkeeps nId hne hnone).1 _ hinfo
  have hcell₂ : triedCell h s₂ info.toCService = cell := by rw [hcell, triedCell, triedCell, hkey]
  refine ⟨s₂.enterTried nId cell.1 cell.2, ?_,
    enterTried_spec hs₂ hinfo₂ hflag rfl hsuccess hcell₂ hfree, hkey, hidCount⟩
  have hbucket : h.getTriedBucket s.nKey info.toCService = cell.1 := rfl
  have hposition : h.getBucketPosition s.nKey false cell.1 info.toCService = cell.2 := rfl
  simp [moveToTried, hinfo, hbucket, hposition, hevict, hfree, guard]

/-- A new entry with a successful connection becomes a tried one. -/
lemma makeTried_spec (hs : Sound h s (fun _ => False) 0)
    (hinfo : s.mapInfo.find? nId = some info) (hflag : info.fInTried = false)
    (hsuccess : info.nLastSuccess ≠ 0) : ∃ s', s.makeTried h nId = some s' ∧
      Sound h s' (fun _ => False) 0 ∧ s'.nKey = s.nKey ∧ s'.nIdCount = s.nIdCount := by
  have hloose : Sound h s (· = nId) 0 := hs.mono fun _ _ _ hl => hl.elim
  obtain ⟨hs₁, hsame, ⟨c, hinfo₁⟩, hgone⟩ :=
    leaveBuckets_spec hloose hinfo rfl (List.range ADDRMAN_NEW_BUCKET_COUNT)
  simp only [makeTried, hinfo, Option.bind_eq_bind, Option.bind_some]
  generalize (List.range ADDRMAN_NEW_BUCKET_COUNT).foldl (leaveBucket h nId info.toCService) s = s₁
    at *
  have hnone (b p : Nat) : s₁.vvNew b p ≠ some nId := by
    intro hp
    obtain ⟨hold, hnot⟩ := hgone b p hp
    exact hnot (mem_range.mpr (hs.tables.new b p nId hold).1)
  obtain ⟨s', hmove, hs', hkey, hidCount⟩ := moveToTried_spec hs₁ hinfo₁ hflag hsuccess hnone
  exact ⟨s', hmove, hs', hkey.trans hsame.nKey, hidCount.trans hsame.nIdCount⟩

end CAddrMan

end Jumpcoin
