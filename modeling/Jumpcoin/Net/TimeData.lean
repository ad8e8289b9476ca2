import Jumpcoin.Foundation.Sequences
import Mathlib.Data.List.Induction

/-!
# The time of the network

`AddTimeData` of `timedata.cpp`. Peers report how far their clocks are from ours; the first report
of each of the first 200 addresses is recorded. When the number of samples is odd and at least
five, their median becomes the offset of our clock, unless it is too large.

The guard takes an absolute value, which the smallest word does not have.
-/

namespace Jumpcoin

open List Int64

open OrderStatistics (below below_perm le_getElem_iff)

/-! ## The median filter -/

/-- The median of the last values of a stream. -/
structure CMedianFilter (α : Type) where
  vValues : List α
  vSorted : List α
  nSize : Nat

namespace CMedianFilter

variable {α : Type}

def init (size : Nat) (initialValue : α) : CMedianFilter α := ⟨[initialValue], [initialValue], size⟩

def input [LE α] [DecidableLE α] (filter : CMedianFilter α) (value : α) : CMedianFilter α :=
  let kept := if filter.vValues.length = filter.nSize then filter.vValues.tail else filter.vValues
  let vValues := kept ++ [value]
  { filter with vValues, vSorted := vValues.insertionSort (· ≤ ·) }

def median [Add α] [Div α] [OfNat α 2] (filter : CMedianFilter α) : Option α :=
  let size := filter.vSorted.length
  if size % 2 = 1 then filter.vSorted[size / 2]?
  else do
    let lower ← filter.vSorted[size / 2 - 1]?
    let upper ← filter.vSorted[size / 2]?
    some ((lower + upper) / 2)

def size (filter : CMedianFilter α) : Nat := filter.vValues.length

end CMedianFilter

/-! ## Adding a sample -/

def BITCOIN_TIMEDATA_MAX_SAMPLES : Nat := 200

def abs64 (n : Int64) : Int64 := if 0 ≤ n then n else -n

/-- The static variables of `AddTimeData`, the offset and the warning. -/
structure TimeData (CNetAddr : Type) where
  setKnown : List CNetAddr
  vTimeOffsets : CMedianFilter Int64
  nTimeOffset : Int64
  fDone : Bool
  strMiscWarning : String

namespace TimeData

variable {CNetAddr : Type}

def init : TimeData CNetAddr where
  setKnown := []
  vTimeOffsets := .init BITCOIN_TIMEDATA_MAX_SAMPLES 0
  nTimeOffset := 0
  fDone := false
  strMiscWarning := ""

/-- The largest offset that peers may set, from `-maxtimeadjustment`. -/
def maxOffset (maxtimeadjustment : Int64) : Int64 :=
  if 0 < maxtimeadjustment then maxtimeadjustment else 0

def warn (packageName : String) (s : TimeData CNetAddr) : TimeData CNetAddr :=
  if s.fDone then s
  else
    let fMatch := s.vTimeOffsets.vSorted.any fun nOffset =>
      nOffset != 0 && decide (abs64 nOffset < 5 * 60)
    if fMatch then s
    else
      { s with
        fDone := true
        strMiscWarning := "Please check that your computer's date and time are correct! " ++
          "If your clock is wrong, " ++ packageName ++ " will not work properly." }

def setOffset (packageName : String) (maxtimeadjustment nMedian : Int64) (s : TimeData CNetAddr) :
    TimeData CNetAddr :=
  if abs64 nMedian ≤ maxOffset maxtimeadjustment then { s with nTimeOffset := nMedian }
  else warn packageName { s with nTimeOffset := 0 }

/-- The offset is set anew when the number of samples is odd and at least five. -/
def update (packageName : String) (maxtimeadjustment : Int64) (s : TimeData CNetAddr) :
    TimeData CNetAddr :=
  if 5 ≤ s.vTimeOffsets.size ∧ s.vTimeOffsets.size % 2 = 1 then
    match s.vTimeOffsets.median with
    | none => s
    | some nMedian => setOffset packageName maxtimeadjustment nMedian s
  else s

section

variable [DecidableEq CNetAddr] (packageName : String) (maxtimeadjustment : Int64)

def addTimeData (s : TimeData CNetAddr) (ip : CNetAddr) (nOffsetSample : Int64) :
    TimeData CNetAddr :=
  if s.setKnown.length = BITCOIN_TIMEDATA_MAX_SAMPLES then s
  -- Ignore duplicates
  else if ip ∈ s.setKnown then s
  else
    update packageName maxtimeadjustment
      { s with
        setKnown := s.setKnown ++ [ip]
        vTimeOffsets := s.vTimeOffsets.input nOffsetSample }

def run (calls : List (CNetAddr × Int64)) : TimeData CNetAddr :=
  calls.foldl (fun s call => s.addTimeData packageName maxtimeadjustment call.1 call.2) init

end

/-! ## Recorded samples -/

variable {packageName : String} {maxtimeadjustment : Int64} {s : TimeData CNetAddr}
variable {recorded : List (CNetAddr × Int64)} {call : CNetAddr × Int64}

/-- Calls beyond the first one for each of the first 200 addresses are ignored. -/
def record [DecidableEq CNetAddr] (recorded : List (CNetAddr × Int64))
    (call : CNetAddr × Int64) : List (CNetAddr × Int64) :=
  if recorded.length = BITCOIN_TIMEDATA_MAX_SAMPLES ∨ call.1 ∈ recorded.map Prod.fst then recorded
  else recorded ++ [call]

/-- The first call for each of the first 200 addresses. -/
def recordedOf [DecidableEq CNetAddr] (calls : List (CNetAddr × Int64)) : List (CNetAddr × Int64) :=
  calls.foldl record []

/-- The offset is set, and more than half of the samples are the smallest word. The filter starts
with one sample of its own. -/
structure SmallestPrevails (recorded : List (CNetAddr × Int64)) : Prop where
  enough : 4 ≤ recorded.length
  room : recorded.length < BITCOIN_TIMEDATA_MAX_SAMPLES
  even : recorded.length % 2 = 0
  prevails : recorded.length / 2 < (recorded.map Prod.snd).count Int64.minValue

def Bounded (maxtimeadjustment : Int64) (s : TimeData CNetAddr) : Prop :=
  -(max 0 maxtimeadjustment.toInt) ≤ s.nTimeOffset.toInt ∧
    s.nTimeOffset.toInt ≤ max 0 maxtimeadjustment.toInt

/-- The state holds the recorded samples. -/
structure Holds (s : TimeData CNetAddr) (recorded : List (CNetAddr × Int64)) : Prop where
  known : s.setKnown = recorded.map Prod.fst
  length_le : recorded.length ≤ BITCOIN_TIMEDATA_MAX_SAMPLES
  values : s.vTimeOffsets.vValues =
    (0 :: recorded.map Prod.snd).drop (recorded.length + 1 - BITCOIN_TIMEDATA_MAX_SAMPLES)
  size : s.vTimeOffsets.nSize = BITCOIN_TIMEDATA_MAX_SAMPLES

lemma toInt_maxOffset : (maxOffset maxtimeadjustment).toInt = max 0 maxtimeadjustment.toInt := by
  unfold maxOffset
  split_ifs with h
  · rw [lt_iff_toInt_lt, toInt_zero] at h
    omega
  · rw [lt_iff_toInt_lt, toInt_zero] at h
    rw [toInt_zero]
    omega

lemma toInt_abs64 {n : Int64} (h : n ≠ Int64.minValue) : (abs64 n).toInt = |n.toInt| := by
  unfold abs64
  split_ifs with hn
  · rw [le_iff_toInt_le, toInt_zero] at hn
    rw [abs_of_nonneg hn]
  · rw [le_iff_toInt_le, toInt_zero, not_le] at hn
    have hmin : n.toInt ≠ -2 ^ 63 := fun heq => h (toInt_inj.mp heq)
    have hle := n.le_toInt
    rw [abs_of_neg hn, toInt_neg, Int.bmod_eq_of_le (by omega) (by omega)]

/-- The smallest word passes the guard. -/
lemma setOffset_minValue :
    (setOffset packageName maxtimeadjustment Int64.minValue s).nTimeOffset = Int64.minValue := by
  have hle : abs64 Int64.minValue ≤ maxOffset maxtimeadjustment := by
    have hmin : (abs64 Int64.minValue).toInt = -2 ^ 63 := by decide
    rw [le_iff_toInt_le, toInt_maxOffset, hmin]
    omega
  rw [setOffset, if_pos hle]

lemma warn_frame : (warn packageName s).setKnown = s.setKnown ∧
    (warn packageName s).vTimeOffsets = s.vTimeOffsets ∧
    (warn packageName s).nTimeOffset = s.nTimeOffset := by
  unfold warn
  extract_lets
  split_ifs <;> exact ⟨rfl, rfl, rfl⟩

lemma update_frame : (update packageName maxtimeadjustment s).setKnown = s.setKnown ∧
    (update packageName maxtimeadjustment s).vTimeOffsets = s.vTimeOffsets := by
  unfold update
  split_ifs
  · cases s.vTimeOffsets.median with
    | none => exact ⟨rfl, rfl⟩
    | some nMedian =>
      simp only [setOffset]
      split_ifs
      · exact ⟨rfl, rfl⟩
      · exact ⟨warn_frame.1, warn_frame.2.1⟩
  · exact ⟨rfl, rfl⟩

/-- Every other median is let through within the limit only. -/
lemma setOffset_bounded {nMedian : Int64} (h : nMedian ≠ Int64.minValue) :
    Bounded maxtimeadjustment (setOffset packageName maxtimeadjustment nMedian s) := by
  unfold setOffset Bounded
  split_ifs with hle
  · rw [le_iff_toInt_le, toInt_abs64 h, toInt_maxOffset] at hle
    exact abs_le.mp hle
  · rw [warn_frame.2.2, toInt_zero]
    omega

/-! ## The median of the samples -/

instance : Std.Total fun a b : Int64 => a ≤ b := ⟨Int64.le_total⟩

instance : IsTrans Int64 fun a b => a ≤ b := ⟨fun _ _ _ => Int64.le_trans⟩

/-- The middle one of an odd number of words is the smallest word if that is the majority. -/
lemma getElem_insertionSort_eq_minValue {values : List Int64} {k : Nat}
    (hk : k < (values.insertionSort (· ≤ ·)).length) :
    (values.insertionSort (· ≤ ·))[k] = Int64.minValue ↔ k < values.count Int64.minValue := by
  have hsorted : (values.insertionSort (· ≤ ·)).Pairwise fun a b => a.toInt ≤ b.toInt :=
    (pairwise_insertionSort _ values).imp le_iff_toInt_le.mp
  have hbelow : below Int64.toInt (-2 ^ 63 + 1) values = values.count Int64.minValue := by
    apply countP_congr
    intro a _
    have hle := a.le_toInt
    have hmin : a = Int64.minValue ↔ a.toInt = -2 ^ 63 := toInt_inj.symm
    simp only [decide_eq_true_eq, beq_iff_eq, hmin]
    omega
  have hcompare := le_getElem_iff (a := -2 ^ 63 + 1) hsorted hk
  rw [below_perm (perm_insertionSort _ values), hbelow] at hcompare
  generalize (values.insertionSort (· ≤ ·))[k] = m at *
  have hle := m.le_toInt
  have hmin : m = Int64.minValue ↔ m.toInt = -2 ^ 63 := toInt_inj.symm
  rw [hmin]
  omega

/-- What a call that is recorded does to the offset. -/
lemma update_spec (h : Holds s recorded)
    (hsorted : s.vTimeOffsets.vSorted = s.vTimeOffsets.vValues.insertionSort (· ≤ ·)) :
    (SmallestPrevails recorded →
      (update packageName maxtimeadjustment s).nTimeOffset = Int64.minValue) ∧
    (¬SmallestPrevails recorded → Bounded maxtimeadjustment s →
      Bounded maxtimeadjustment (update packageName maxtimeadjustment s)) := by
  have hmax : BITCOIN_TIMEDATA_MAX_SAMPLES = 200 := rfl
  have hlength : s.vTimeOffsets.size =
      recorded.length + 1 - (recorded.length + 1 - BITCOIN_TIMEDATA_MAX_SAMPLES) := by
    simp [CMedianFilter.size, h.values]
  unfold update
  by_cases hset : 5 ≤ s.vTimeOffsets.size ∧ s.vTimeOffsets.size % 2 = 1
  · have hroom : recorded.length < 200 := by omega
    have hvalues : s.vTimeOffsets.vValues = 0 :: recorded.map Prod.snd := by
      rw [h.values, Nat.sub_eq_zero_of_le (by omega), drop_zero]
    have hsize : s.vTimeOffsets.vSorted.length = recorded.length + 1 := by
      rw [hsorted, length_insertionSort, hvalues]
      simp
    have hhalf : (recorded.length + 1) / 2 = recorded.length / 2 := by omega
    have hk : recorded.length / 2 < (s.vTimeOffsets.vValues.insertionSort (· ≤ ·)).length := by
      rw [← hsorted]
      omega
    have hmedian : s.vTimeOffsets.median =
        some (s.vTimeOffsets.vValues.insertionSort (· ≤ ·))[recorded.length / 2] := by
      unfold CMedianFilter.median
      simp only [hsize, hhalf, show (recorded.length + 1) % 2 = 1 by omega, if_true]
      rw [hsorted, getElem?_eq_getElem hk]
    have hsmallest := getElem_insertionSort_eq_minValue hk
    have hcount : s.vTimeOffsets.vValues.count Int64.minValue =
        (recorded.map Prod.snd).count Int64.minValue := by
      rw [hvalues, count_cons_of_ne (by decide)]
    rw [hcount] at hsmallest
    simp only [if_pos hset, hmedian]
    refine ⟨?_, ?_⟩
    · intro hprevails
      rw [hsmallest.mpr hprevails.prevails]
      exact setOffset_minValue
    · intro hnot _
      apply setOffset_bounded
      intro hmin
      exact hnot ⟨by omega, hroom, by omega, hsmallest.mp hmin⟩
  · rw [if_neg hset]
    refine ⟨?_, fun _ hbounded => hbounded⟩
    intro hprevails
    have henough := hprevails.enough
    have hroom := hprevails.room
    have heven := hprevails.even
    omega

lemma Holds.update (h : Holds s recorded) :
    Holds (update packageName maxtimeadjustment s) recorded := by
  obtain ⟨hknown, hoffsets⟩ : (TimeData.update packageName maxtimeadjustment s).setKnown = _ ∧ _ :=
    update_frame
  exact ⟨hknown.trans h.known, h.length_le, hoffsets ▸ h.values, hoffsets ▸ h.size⟩

/-- The filter with one more sample. -/
lemma Holds.input (h : Holds s recorded)
    (hroom : recorded.length ≠ BITCOIN_TIMEDATA_MAX_SAMPLES) (call : CNetAddr × Int64) :
    Holds { s with
      setKnown := s.setKnown ++ [call.1]
      vTimeOffsets := s.vTimeOffsets.input call.2 } (recorded ++ [call]) := by
  have hle := h.length_le
  refine ⟨by simp [h.known], by simp; omega, ?_, h.size⟩
  have hkeep : s.vTimeOffsets.vValues = 0 :: recorded.map Prod.snd := by
    rw [h.values, Nat.sub_eq_zero_of_le (by omega), drop_zero]
  simp only [CMedianFilter.input, h.size, hkeep, length_cons, length_map,
    length_append, map_append, map_cons, map_nil, length_nil]
  split_ifs with hfull
  · rw [show recorded.length + (0 + 1) + 1 - BITCOIN_TIMEDATA_MAX_SAMPLES = 1 by omega]
    rfl
  · rw [Nat.sub_eq_zero_of_le (by omega)]
    rfl

variable [DecidableEq CNetAddr] {calls : List (CNetAddr × Int64)}

lemma addTimeData_cases (packageName : String) (maxtimeadjustment : Int64) (h : Holds s recorded)
    (call : CNetAddr × Int64) :
    (s.addTimeData packageName maxtimeadjustment call.1 call.2 = s ∧
      record recorded call = recorded) ∨
    (record recorded call = recorded ++ [call] ∧
      Holds (s.addTimeData packageName maxtimeadjustment call.1 call.2) (recorded ++ [call]) ∧
      (SmallestPrevails (recorded ++ [call]) →
        (s.addTimeData packageName maxtimeadjustment call.1 call.2).nTimeOffset =
          Int64.minValue) ∧
      (¬SmallestPrevails (recorded ++ [call]) → Bounded maxtimeadjustment s →
        Bounded maxtimeadjustment
          (s.addTimeData packageName maxtimeadjustment call.1 call.2))) := by
  unfold addTimeData record
  rw [h.known, length_map]
  by_cases hfull : recorded.length = BITCOIN_TIMEDATA_MAX_SAMPLES
  · simp [hfull]
  · by_cases hknown : call.1 ∈ recorded.map Prod.fst
    · simp [hfull, hknown]
    · right
      simp only [hfull, hknown, if_false, or_self]
      have hinput := h.input hfull call
      rw [h.known] at hinput
      exact ⟨trivial, hinput.update, update_spec hinput rfl⟩

/-! ## Runs -/

section

variable (calls : List (CNetAddr × Int64))

lemma run_append (call : CNetAddr × Int64) :
    run packageName maxtimeadjustment (calls ++ [call]) =
      (run packageName maxtimeadjustment calls).addTimeData packageName maxtimeadjustment
        call.1 call.2 := by
  simp [run]

lemma recordedOf_append (call : CNetAddr × Int64) :
    recordedOf (calls ++ [call]) = record (recordedOf calls) call := by
  simp [recordedOf]

lemma holds_run : Holds (run packageName maxtimeadjustment calls) (recordedOf calls) := by
  induction calls using List.reverseRecOn with
  | nil =>
    refine ⟨rfl, Nat.zero_le _, ?_, rfl⟩
    simp [run, init, CMedianFilter.init, recordedOf, BITCOIN_TIMEDATA_MAX_SAMPLES]
  | append_singleton calls call ih =>
    rw [run_append, recordedOf_append]
    obtain ⟨hsame, hrecord⟩ | ⟨hrecord, hholds, -⟩ :=
      addTimeData_cases packageName maxtimeadjustment ih call
    · rwa [hsame, hrecord]
    · rwa [hrecord]

/-- Calls that are not recorded change nothing: the offset and the warning are those of the first
reports of the first 200 addresses alone. -/
theorem run_recordedOf :
    run packageName maxtimeadjustment calls =
      run packageName maxtimeadjustment (recordedOf calls) := by
  induction calls using List.reverseRecOn with
  | nil => rfl
  | append_singleton calls call ih =>
    rw [run_append, recordedOf_append]
    obtain ⟨hsame, hrecord⟩ | ⟨hrecord, -⟩ :=
      addTimeData_cases packageName maxtimeadjustment (holds_run calls) call
    · rw [hsame, hrecord, ih]
    · rw [hrecord, run_append, ih]

end

/-- Where the smallest word prevails, the offset has been set to it. -/
lemma exists_smallest (packageName : String) (maxtimeadjustment : Int64)
    (h : SmallestPrevails (recordedOf calls)) :
    ∃ earlier, earlier <+: calls ∧
      (run packageName maxtimeadjustment earlier).nTimeOffset = Int64.minValue := by
  induction calls using List.reverseRecOn with
  | nil =>
    have henough : 4 ≤ 0 := h.enough
    omega
  | append_singleton calls call ih =>
    rw [recordedOf_append] at h
    obtain ⟨-, hrecord⟩ | ⟨hrecord, -, hset, -⟩ :=
      addTimeData_cases packageName maxtimeadjustment (holds_run calls) call
    · obtain ⟨earlier, hearlier, hoffset⟩ := ih (hrecord ▸ h)
      exact ⟨earlier, hearlier.trans (prefix_append _ _), hoffset⟩
    · exact ⟨calls ++ [call], prefix_rfl, by rw [run_append]; exact hset (hrecord ▸ h)⟩

lemma bounded_run (h : ∀ earlier, earlier <+: calls → ¬SmallestPrevails (recordedOf earlier)) :
    Bounded maxtimeadjustment (run packageName maxtimeadjustment calls) := by
  induction calls using List.reverseRecOn with
  | nil =>
    have hzero : (run packageName maxtimeadjustment
        ([] : List (CNetAddr × Int64))).nTimeOffset = 0 := rfl
    rw [Bounded, hzero, toInt_zero]
    omega
  | append_singleton calls call ih =>
    have hcalls := ih fun earlier hearlier => h earlier (hearlier.trans (prefix_append _ _))
    have hlast := h _ prefix_rfl
    rw [recordedOf_append] at hlast
    rw [run_append]
    obtain ⟨hsame, -⟩ | ⟨hrecord, -, -, hkeep⟩ :=
      addTimeData_cases packageName maxtimeadjustment (holds_run calls) call
    · rwa [hsame]
    · exact hkeep (hrecord ▸ hlast) hcalls

/-- Throughout a sequence of calls the offset is within the limit, exactly if at no point at which
it is set most samples are the smallest word. -/
theorem bounded_iff (packageName : String) (maxtimeadjustment : Int64)
    (calls : List (CNetAddr × Int64)) :
    (∀ earlier, earlier <+: calls →
      Bounded maxtimeadjustment (run packageName maxtimeadjustment earlier)) ↔
    ∀ earlier, earlier <+: calls → ¬SmallestPrevails (recordedOf earlier) := by
  constructor
  · intro h earlier hearlier hprevails
    obtain ⟨first, hfirst, hoffset⟩ := exists_smallest packageName maxtimeadjustment hprevails
    have hlow := (h first (hfirst.trans hearlier)).1
    have hmin : Int64.minValue.toInt = -2 ^ 63 := by decide
    have hlimit := maxtimeadjustment.toInt_lt
    rw [hoffset, hmin] at hlow
    omega
  · intro h earlier hearlier
    exact bounded_run fun first hfirst => h first (hfirst.trans hearlier)

/-- Four peers report the smallest offset. -/
theorem run_smallest : (run "Jumpcoin" 4200
    [(1, -9223372036854775808), (2, -9223372036854775808), (3, -9223372036854775808),
      (4, -9223372036854775808)] : TimeData Nat).nTimeOffset = -9223372036854775808 ∧
    ¬Bounded 4200 (run "Jumpcoin" 4200
      [(1, -9223372036854775808), (2, -9223372036854775808), (3, -9223372036854775808),
        (4, -9223372036854775808)] : TimeData Nat) := by
  refine ⟨by decide +kernel, ?_⟩
  rintro ⟨hlow, -⟩
  exact absurd hlow (by decide +kernel)

end TimeData

end Jumpcoin
