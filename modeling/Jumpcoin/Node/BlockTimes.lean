import Jumpcoin.Chain.Paths
import Jumpcoin.Foundation.Sequences
import Jumpcoin.Node.ChainWork

/-!
# Block times

The limit of past times along a chain of accepted headers. Before the second protocol the limit of
a block is the median of the last eleven times, afterwards it is the block's own time; a header must
be later than the limit of its predecessor. On the main and the test network the limit never
decreases, and with it time locks that are satisfied once stay satisfied.
-/

namespace Jumpcoin

open Check CValidationState OrderStatistics List Option

/-- A chain of headers, newest first, each accepted on top of the one before it in some state of the
node. Nothing is said about the first one. -/
inductive AcceptedChain (config : Config) : List CBlockIndex → Prop
  | first (pindex : CBlockIndex) : AcceptedChain config [pindex]
  | next {pindexPrev pindex : CBlockIndex} {pprev : List CBlockIndex} {header : CBlockHeader}
      {chain : ChainState} {state state' : CValidationState} :
      AcceptedChain config (pindexPrev :: pprev) →
      header.getHash config.hashes ≠ config.params.hashGenesisBlock →
      contextualCheckBlockHeader config chain header (pindexPrev :: pprev) state =
        (.returned (), state') →
      pindex.nTime = header.nTime → pindex.nHeight = pindexPrev.nHeight + 1 →
      AcceptedChain config (pindex :: pindexPrev :: pprev)

section

variable (params : Params) (pindex : CBlockIndex) (pprev : List CBlockIndex)

def lockTimeCutoff : Option Int :=
  if params.isProtocolV3_1 pindex.getBlockTime then getPastTimeLimit params pprev
  else some pindex.getBlockTime

def finalAt (tx : CTransaction) : Bool :=
  (lockTimeCutoff params pindex pprev).any (isFinalTx tx pindex.nHeight)

end

def genesisTime : UInt32 := 1696771811

section

variable {config : Config} {params : Params} {pindex pindexPrev : CBlockIndex}
variable {pprev path : List CBlockIndex}

/-! ## The median of past times -/

/-- The median is at least a bound if no more than half of the times are below it. -/
lemma le_getMedianTimePast {nMedian a : Int} (h : getMedianTimePast path = some nMedian) :
    a ≤ nMedian ↔ below id a (blockTimes path) ≤ (blockTimes path).length / 2 := by
  rw [getMedianTimePast_eq] at h
  obtain ⟨hk, hget⟩ := List.getElem?_eq_some_iff.mp h
  rw [← below_perm (List.perm_insertionSort (· ≤ ·) (blockTimes path)), ← hget]
  exact le_getElem_iff (f := id) (pairwise_insertionSort (· ≤ ·) (blockTimes path)) hk

/-- A time that is not before the median does not lower it. -/
lemma getMedianTimePast_le {nMedian nMedian' : Int} (h : getMedianTimePast path = some nMedian)
    (h' : getMedianTimePast (pindex :: path) = some nMedian')
    (hle : nMedian ≤ pindex.getBlockTime) :
    nMedian ≤ nMedian' := by
  rw [le_getMedianTimePast h']
  have hold := (le_getMedianTimePast h).mp le_rfl
  have htimes : blockTimes (pindex :: path) =
      pindex.getBlockTime :: (path.take 10).map CBlockIndex.getBlockTime := rfl
  have hfewer : below id nMedian ((path.take 10).map CBlockIndex.getBlockTime) ≤
      below id nMedian (blockTimes path) := by
    apply List.Sublist.countP_le
    apply List.Sublist.map
    exact (take_prefix_take_left (by decide)).sublist
  have hlonger : (blockTimes path).length ≤ (blockTimes (pindex :: path)).length := by
    simp [blockTimes]
  rw [htimes, below_cons, if_neg (by simpa using hle), ← htimes]
  omega

/-! ## The limit of past times -/

/-- Both networks switch to the second protocol after the excepted second. -/
def LateSwitch (params : Params) : Prop :=
  1407053678 ≤ params.nProtocolV2Time

lemma LateSwitch.isProtocolV2_iff (h : LateSwitch params) (nTime : Int) :
    params.isProtocolV2 nTime = true ↔ params.nProtocolV2Time < nTime := by
  unfold LateSwitch at h
  simp only [Params.isProtocolV2, Params.isAfter, Bool.and_eq_true, decide_eq_true_eq]
  omega

/-- An accepted header is later than the limit of its predecessor. -/
lemma lt_of_contextualCheckBlockHeader {header : CBlockHeader} {chain : ChainState}
    {state state' : CValidationState}
    (hgenesis : header.getHash config.hashes ≠ config.params.hashGenesisBlock)
    (h : contextualCheckBlockHeader config chain header path state = (.returned (), state')) :
    ∃ nLimit, getPastTimeLimit config.params path = some nLimit ∧
      nLimit < header.getBlockTime := by
  simp only [contextualCheckBlockHeader, if_neg hgenesis, bind_eq_returned, require_eq_returned,
    ensure_eq_returned] at h
  obtain ⟨_, _, -, _, _, -, _, _, -, _, _, -, nLimit, _, ⟨hlimit, -⟩, htime, -⟩ := h
  exact ⟨nLimit, hlimit, by simpa using htime⟩

def Follows (params : Params) (pindex : CBlockIndex) (path : List CBlockIndex) : Prop :=
  ∃ nLimit, getPastTimeLimit params path = some nLimit ∧ nLimit < pindex.getBlockTime

variable {nLimit : Int} {nLimit' : Int}

lemma Follows.limit_le (hswitch : LateSwitch params)
    (h : Follows params pindex (pindexPrev :: pprev))
    (hlimit : getPastTimeLimit params (pindexPrev :: pprev) = some nLimit)
    (hlimit' : getPastTimeLimit params (pindex :: pindexPrev :: pprev) = some nLimit') :
    nLimit ≤ nLimit' := by
  obtain ⟨_, hsame, hlt⟩ := h
  obtain rfl := some.inj (hlimit.symm.trans hsame)
  rw [getPastTimeLimit] at hlimit hlimit'
  simp only [hswitch.isProtocolV2_iff] at hlimit hlimit'
  split_ifs at hlimit' with hafter
  · obtain rfl := some.inj hlimit'
    exact hlt.le
  · split_ifs at hlimit with hprev
    · obtain rfl := some.inj hlimit
      omega
    · exact getMedianTimePast_le hlimit hlimit' hlt.le

/-- What is used of a chain of accepted headers: each follows the one before, at the next height. -/
lemma AcceptedChain.follows (h : AcceptedChain config (pindex :: pindexPrev :: pprev)) :
    Follows config.params pindex (pindexPrev :: pprev) ∧
      pindex.nHeight = pindexPrev.nHeight + 1 ∧ AcceptedChain config (pindexPrev :: pprev) := by
  cases h with
  | next hprev hgenesis hcheck htime hheight =>
    obtain ⟨nLimit, hlimit, hlt⟩ := lt_of_contextualCheckBlockHeader hgenesis hcheck
    refine ⟨⟨nLimit, hlimit, ?_⟩, hheight, hprev⟩
    rwa [CBlockIndex.getBlockTime, htime]

variable {later : List CBlockIndex}

lemma AcceptedChain.earlier (h : AcceptedChain config (later ++ pindex :: pprev)) :
    AcceptedChain config (pindex :: pprev) := by
  induction later with
  | nil => exact h
  | cons next later ih =>
    cases later with
    | nil => exact (AcceptedChain.follows h).2.2
    | cons _ _ => exact ih (AcceptedChain.follows h).2.2

/-- The last block of a chain that goes on from a given block. -/
lemma exists_top (later : List CBlockIndex) (pindex : CBlockIndex) (pprev : List CBlockIndex) :
    ∃ top rest, later ++ pindex :: pprev = top :: rest ∧ (later ++ [pindex]).head? = some top := by
  cases later with
  | nil => exact ⟨_, _, rfl, rfl⟩
  | cons top rest => exact ⟨_, _, rfl, rfl⟩

/-- The limit does not decrease along a chain. -/
lemma AcceptedChain.limit_le (hswitch : LateSwitch config.params)
    (h : AcceptedChain config (later ++ pindex :: pprev))
    (hlimit : getPastTimeLimit config.params (pindex :: pprev) = some nLimit)
    (hlimit' : getPastTimeLimit config.params (later ++ pindex :: pprev) = some nLimit') :
    nLimit ≤ nLimit' := by
  induction later generalizing nLimit' with
  | nil => exact (some.inj (hlimit.symm.trans hlimit')).le
  | cons next later ih =>
    obtain ⟨top, rest, hpath, -⟩ := exists_top later pindex pprev
    rw [cons_append] at h hlimit'
    rw [hpath] at h hlimit' ih
    obtain ⟨hfollows, -, hprev⟩ := h.follows
    obtain ⟨nMiddle, hmiddle⟩ := exists_getPastTimeLimit config.params (cons_ne_nil top rest)
    exact (ih hprev hmiddle).trans (hfollows.limit_le hswitch hmiddle hlimit')

lemma AcceptedChain.nHeight_pairwise (h : AcceptedChain config path) :
    (path.map CBlockIndex.nHeight).Pairwise (· > ·) := by
  rw [← isChain_iff_pairwise]
  induction h with
  | first pindex => simp
  | next _ _ _ _ hheight ih =>
    rw [map_cons, map_cons, isChain_cons_cons]
    exact ⟨by omega, ih⟩

/-- Once the second protocol is in force, times increase. -/
lemma AcceptedChain.times_pairwise (hswitch : LateSwitch config.params)
    (h : AcceptedChain config (later ++ pindex :: pprev))
    (hv2 : config.params.isProtocolV2 pindex.getBlockTime = true) :
    ((later ++ [pindex]).map CBlockIndex.getBlockTime).Pairwise (· > ·) := by
  rw [hswitch.isProtocolV2_iff] at hv2
  induction later with
  | nil => simp
  | cons next later ih =>
    obtain ⟨top, rest, hpath, htop⟩ := exists_top later pindex pprev
    rw [cons_append] at h
    rw [hpath] at h ih
    obtain ⟨⟨nLimit, hlimit, hlt⟩, -, hprev⟩ := h.follows
    have hlater := ih hprev
    have hafter : pindex.getBlockTime ≤ top.getBlockTime := by
      cases later with
      | nil =>
        obtain rfl : pindex = top := by simpa using htop
        exact le_rfl
      | cons first later =>
        obtain rfl : first = top := by simpa using htop
        rw [cons_append, map_cons, pairwise_cons] at hlater
        exact (hlater.1 _ (by simp)).le
    rw [getPastTimeLimit, if_pos ((hswitch.isProtocolV2_iff _).mpr (by omega))] at hlimit
    obtain rfl := some.inj hlimit
    rw [← isChain_iff_pairwise] at hlater ⊢
    rw [cons_append, map_cons, isChain_cons, head?_map, htop]
    exact ⟨by simpa using hlt, hlater⟩

/-! ## Locks -/

variable {tx : CTransaction}

lemma isFinalTx_mono {nHeight nHeight' nTime nTime' : Int}
    (h : isFinalTx tx nHeight nTime = true) (hheight : nHeight ≤ nHeight')
    (htime : nTime ≤ nTime') : isFinalTx tx nHeight' nTime' = true := by
  simp only [isFinalTx, Bool.or_eq_true, decide_eq_true_eq] at h ⊢
  split_ifs at h ⊢ <;> grind

variable {height : Int} {prevHeights : List Int} {fVerifySequence : Bool}

lemma getAncestorPath_eq_cons {rest : List CBlockIndex}
    (h : getAncestorPath path height = pindex :: rest) :
    (pindex.nHeight : Int) = height ∧ path.dropWhile (fun pindexWalk =>
      decide ((pindexWalk.nHeight : Int) ≠ height)) = pindex :: rest := by
  cases path with
  | nil => cases h
  | cons first path =>
    rw [getAncestorPath] at h
    split_ifs at h
    have hhead := head?_dropWhile_not
      (fun pindex : CBlockIndex => decide ((pindex.nHeight : Int) ≠ height)) (first :: path)
    rw [h] at hhead
    exact ⟨by simpa using hhead, h⟩

section

variable (h : AcceptedChain config (later ++ path))
include h

/-- What was read from an ancestor is read from it for every later block. -/
lemma AcceptedChain.limit_getAncestorPath
    (hlimit : getPastTimeLimit params (getAncestorPath path height) = some nLimit) :
    getPastTimeLimit params (getAncestorPath (later ++ path) height) = some nLimit := by
  cases hancestor : getAncestorPath path height with
  | nil =>
    rw [hancestor] at hlimit
    cases hlimit
  | cons pindex rest =>
    have hmem : pindex ∈ path :=
      (getAncestorPath_suffix path height).subset (hancestor ▸ mem_cons_self)
    obtain ⟨hheight, hdrop⟩ := getAncestorPath_eq_cons hancestor
    have hpairwise := h.nHeight_pairwise
    rw [map_append, pairwise_append] at hpairwise
    have hlt : ∀ next ∈ later, pindex.nHeight < next.nHeight := fun next hnext =>
      hpairwise.2.2 _ (mem_map_of_mem hnext) _ (mem_map_of_mem hmem)
    cases later with
    | nil => exact hlimit
    | cons next later =>
      have hnext := hlt next mem_cons_self
      rw [cons_append, getAncestorPath, if_neg (by omega), ← cons_append, dropWhile_append_of_pos,
        hdrop, ← hancestor, hlimit]
      intro next' hnext'
      have hlt' := hlt next' hnext'
      rw [decide_eq_true_eq]
      omega

lemma AcceptedChain.sequenceLocksLoop_eq {inputs : List (CTxIn × Int)} {lock lockPair : Int × Int}
    (hlocks : sequenceLocksLoop params path lock inputs = some lockPair) :
    sequenceLocksLoop params (later ++ path) lock inputs = some lockPair := by
  induction inputs generalizing lock with
  | nil => exact hlocks
  | cons input inputs ih =>
    obtain ⟨txin, nCoinHeight⟩ := input
    obtain ⟨lock', hone, hrest⟩ := bind_eq_some_iff.mp hlocks
    refine bind_eq_some_iff.mpr ⟨lock', ?_, ih hrest⟩
    simp only [sequenceLock] at hone ⊢
    split_ifs at hone ⊢
    · exact hone
    · obtain ⟨nCoinTime, htime, hlock⟩ := bind_eq_some_iff.mp hone
      exact bind_eq_some_iff.mpr ⟨nCoinTime, h.limit_getAncestorPath htime, hlock⟩
    · exact hone

/-- The lock of a transaction is the same for every later block. -/
lemma AcceptedChain.calculateSequenceLocks_eq {lockPair : Int × Int}
    (hlocks : calculateSequenceLocks params path tx fVerifySequence prevHeights = some lockPair) :
    calculateSequenceLocks params (later ++ path) tx fVerifySequence prevHeights =
      some lockPair := by
  unfold calculateSequenceLocks at hlocks ⊢
  split_ifs at hlocks ⊢
  · exact h.sequenceLocksLoop_eq hlocks
  · exact hlocks

end

variable {between : List CBlockIndex} {descendant : CBlockIndex}

section

variable (h : AcceptedChain config (descendant :: between ++ pindex :: pprev))
include h

/-- The parents of a block and of a descendant. -/
lemma AcceptedChain.parent_limit_le (hswitch : LateSwitch config.params)
    (hlimit : getPastTimeLimit config.params pprev = some nLimit) :
    ∃ nLimit', getPastTimeLimit config.params (between ++ pindex :: pprev) = some nLimit' ∧
      nLimit ≤ nLimit' := by
  cases pprev with
  | nil => cases hlimit
  | cons parent rest =>
    obtain ⟨top, path, hpath, -⟩ := exists_top between pindex (parent :: rest)
    obtain ⟨nLimit', hlimit'⟩ := exists_getPastTimeLimit config.params (cons_ne_nil top path)
    rw [← hpath] at hlimit'
    rw [cons_append, hpath] at h
    have hprev := h.follows.2.2
    rw [← hpath] at hprev
    have hsplit :
        between ++ pindex :: parent :: rest = (between ++ [pindex]) ++ parent :: rest := by simp
    rw [hsplit] at hprev hlimit' ⊢
    exact ⟨nLimit', hlimit', hprev.limit_le hswitch hlimit hlimit'⟩

lemma AcceptedChain.nHeight_lt : pindex.nHeight < descendant.nHeight := by
  have hpairwise := h.nHeight_pairwise
  rw [cons_append, map_cons, pairwise_cons] at hpairwise
  exact hpairwise.1 _ (by simp)

/-- A relative lock that is satisfied stays satisfied. -/
lemma AcceptedChain.sequenceLocks_later (hswitch : LateSwitch config.params)
    (hlocks : sequenceLocks config.params pindex pprev tx fVerifySequence prevHeights = some true) :
    sequenceLocks config.params descendant (between ++ pindex :: pprev) tx fVerifySequence
      prevHeights = some true := by
  simp only [sequenceLocks, bind_eq_bind, bind_eq_some_iff] at hlocks ⊢
  obtain ⟨lockPair, hlock, nLimit, hlimit, hpassed⟩ := hlocks
  obtain ⟨nLimit', hlimit', hle⟩ := h.parent_limit_le hswitch hlimit
  have hheight := h.nHeight_lt
  refine ⟨lockPair, h.calculateSequenceLocks_eq hlock, nLimit', hlimit', ?_⟩
  simp only [some.injEq, Bool.not_eq_true', Bool.or_eq_false_iff, decide_eq_false_iff_not]
    at hpassed ⊢
  omega

end

/-! ## From the genesis block on -/

lemma getMedianTimePast_pair (h : pindexPrev.getBlockTime ≤ pindex.getBlockTime) :
    getMedianTimePast [pindex, pindexPrev] = some pindex.getBlockTime := by
  rcases h.lt_or_eq with hlt | heq
  · have hnot : ¬pindex.getBlockTime ≤ pindexPrev.getBlockTime := by omega
    simp [getMedianTimePast, nMedianTimeSpan, hnot]
  · simp [getMedianTimePast, nMedianTimeSpan, heq]

/-- On a chain from the genesis block the limit of a block is its time. -/
lemma AcceptedChain.limit_eq (hv2 : config.params.nProtocolV2Time = 1696771812)
    (h : AcceptedChain config path)
    (hgenesis : path.getLast?.map CBlockIndex.nTime = some genesisTime) :
    ∃ pindex pprev, path = pindex :: pprev ∧
      getPastTimeLimit config.params path = some pindex.getBlockTime ∧
      1696771811 + (pprev.length : Int) ≤ pindex.getBlockTime := by
  have hswitch : LateSwitch config.params := by
    rw [LateSwitch, hv2]
    decide
  induction path with
  | nil => cases h
  | cons pindex pprev ih =>
    refine ⟨pindex, pprev, rfl, ?_⟩
    cases pprev with
    | nil =>
      have htime : pindex.getBlockTime = 1696771811 := by
        have hnTime : pindex.nTime = genesisTime := by simpa using hgenesis
        rw [CBlockIndex.getBlockTime, hnTime]
        rfl
      refine ⟨?_, by simp [htime]⟩
      rw [getPastTimeLimit, if_neg (by rw [hswitch.isProtocolV2_iff]; omega)]
      simp [getMedianTimePast, nMedianTimeSpan]
    | cons pindexPrev rest =>
      obtain ⟨⟨nLimit, hlimit, hlt⟩, -, hprev⟩ := h.follows
      obtain ⟨_, _, hcons, hsame, hle⟩ := ih hprev (by simpa using hgenesis)
      obtain ⟨rfl, rfl⟩ := cons.inj hcons
      obtain rfl := some.inj (hlimit.symm.trans hsame)
      refine ⟨?_, by rw [length_cons]; omega⟩
      rw [getPastTimeLimit]
      split_ifs with hafter
      · rfl
      · rw [hswitch.isProtocolV2_iff] at hafter
        have hnil : rest = [] := eq_nil_of_length_eq_zero (by omega)
        rw [hnil]
        exact getMedianTimePast_pair hlt.le

/-- The cutoff of a block is not after its time. -/
lemma AcceptedChain.lockTimeCutoff_le (h : AcceptedChain config (pindex :: pprev))
    {nCutoff : Int} (hcutoff : lockTimeCutoff config.params pindex pprev = some nCutoff) :
    nCutoff ≤ pindex.getBlockTime := by
  rw [lockTimeCutoff] at hcutoff
  split_ifs at hcutoff
  · cases pprev with
    | nil => cases hcutoff
    | cons pindexPrev rest =>
      obtain ⟨nLimit, hlimit, hlt⟩ := h.follows.1
      obtain rfl := some.inj (hlimit.symm.trans hcutoff)
      exact hlt.le
  · exact (some.inj hcutoff).ge

/-- On a chain from the genesis block a transaction that is final in one block is final in every
later one. -/
lemma AcceptedChain.finalAt_later (hv2 : config.params.nProtocolV2Time = 1696771812)
    (h : AcceptedChain config (descendant :: between ++ pindex :: pprev))
    (hgenesis : (pindex :: pprev).getLast?.map CBlockIndex.nTime = some genesisTime)
    (hfinal : finalAt config.params pindex pprev tx = true) :
    finalAt config.params descendant (between ++ pindex :: pprev) tx = true := by
  have hswitch : LateSwitch config.params := by
    rw [LateSwitch, hv2]
    decide
  obtain ⟨nCutoff, hcutoff, hfinal⟩ := (any_eq_true _ _).mp hfinal
  have hheight := h.nHeight_lt
  have hle := (AcceptedChain.earlier h).lockTimeCutoff_le hcutoff
  obtain ⟨top, rest, hpath, -⟩ := exists_top between pindex pprev
  rw [cons_append] at h
  have hmiddle : AcceptedChain config (between ++ pindex :: pprev) := by
    rw [hpath] at h ⊢
    exact h.follows.2.2
  -- the limits of the block and of the descendant's parent are their times
  obtain ⟨_, _, hcons, hlimit, -⟩ := hmiddle.earlier.limit_eq hv2 hgenesis
  obtain ⟨rfl, rfl⟩ := cons.inj hcons
  have hlast : (between ++ pindex :: pprev).getLast?.map CBlockIndex.nTime = some genesisTime := by
    rw [getLast?_append_of_ne_nil _ (by simp), hgenesis]
  obtain ⟨_, _, hcons, hlimit', -⟩ := hmiddle.limit_eq hv2 hlast
  obtain ⟨rfl, rfl⟩ := cons.inj (hpath.symm.trans hcons)
  have hlimits := hmiddle.limit_le hswitch hlimit hlimit'
  rw [hpath] at h hlimit' ⊢
  obtain ⟨⟨nLimit, hsame, hlt⟩, -⟩ := h.follows
  obtain rfl := some.inj (hsame.symm.trans hlimit')
  rw [finalAt, lockTimeCutoff]
  split_ifs
  · rw [hlimit', any_some]
    exact isFinalTx_mono hfinal (by omega) (by omega)
  · exact isFinalTx_mono hfinal (by omega) (by omega)

/-! ## The main and the test network -/

/-- What holds of a block of a chain and the blocks after it: the limit of past times does not
decrease, times increase from the second protocol on, and locks that are satisfied stay so. -/
structure TimesAdvance (params : Params) (pindex : CBlockIndex) (pprev later : List CBlockIndex) :
    Prop where
  limit : ∃ nLimit nLimit', getPastTimeLimit params (pindex :: pprev) = some nLimit ∧
    getPastTimeLimit params (later ++ pindex :: pprev) = some nLimit' ∧ nLimit ≤ nLimit'
  times : params.isProtocolV2 pindex.getBlockTime = true →
    ((later ++ [pindex]).map CBlockIndex.getBlockTime).Pairwise (· > ·)
  pastFinal : ∀ descendant between, later = descendant :: between → ∀ tx nLimit,
    getPastTimeLimit params pprev = some nLimit → isFinalTx tx pindex.nHeight nLimit = true →
    ∃ nLimit', getPastTimeLimit params (between ++ pindex :: pprev) = some nLimit' ∧
      isFinalTx tx descendant.nHeight nLimit' = true
  final : (pindex :: pprev).getLast?.map CBlockIndex.nTime = some genesisTime →
    ∀ descendant between, later = descendant :: between → ∀ tx,
    finalAt params pindex pprev tx = true →
    finalAt params descendant (between ++ pindex :: pprev) tx = true
  sequence : ∀ descendant between, later = descendant :: between →
    ∀ tx fVerifySequence prevHeights,
    sequenceLocks params pindex pprev tx fVerifySequence prevHeights = some true →
    sequenceLocks params descendant (between ++ pindex :: pprev) tx fVerifySequence prevHeights =
      some true

/-- Along every chain of headers accepted on the main or the test network. -/
theorem AcceptedChain.timesAdvance {later : List CBlockIndex}
    (hnetwork : config.chainparams = mainParams ∨ config.chainparams = testNetParams)
    (h : AcceptedChain config (later ++ pindex :: pprev)) :
    TimesAdvance config.params pindex pprev later := by
  have hv2 : config.params.nProtocolV2Time = 1696771812 := by
    obtain hmain | htest := hnetwork
    · rw [Config.params, hmain]
      rfl
    · rw [Config.params, htest]
      rfl
  have hswitch : LateSwitch config.params := by
    rw [LateSwitch, hv2]
    decide
  refine ⟨?_, h.times_pairwise hswitch, ?_, ?_, ?_⟩
  · obtain ⟨top, rest, hpath, -⟩ := exists_top later pindex pprev
    obtain ⟨nLimit, hlimit⟩ := exists_getPastTimeLimit config.params (cons_ne_nil pindex pprev)
    obtain ⟨nLimit', hlimit'⟩ := exists_getPastTimeLimit config.params (cons_ne_nil top rest)
    rw [← hpath] at hlimit'
    exact ⟨nLimit, nLimit', hlimit, hlimit', h.limit_le hswitch hlimit hlimit'⟩
  · rintro descendant between rfl tx nLimit hlimit hfinal
    obtain ⟨nLimit', hlimit', hle⟩ := h.parent_limit_le hswitch hlimit
    have hheight := h.nHeight_lt
    exact ⟨nLimit', hlimit', isFinalTx_mono hfinal (by omega) hle⟩
  · rintro hgenesis descendant between rfl tx hfinal
    exact h.finalAt_later hv2 hgenesis hfinal
  · rintro descendant between rfl tx fVerifySequence prevHeights hlocks
    exact h.sequenceLocks_later hswitch hlocks

end

def mainFirstIndex : CBlockIndex :=
  newBlockIndex mainConfig.hashes (mainFirstHeader 0x1e0fffff) (some mainGenesisIndex)

def mainSecondIndex : CBlockIndex :=
  newBlockIndex mainConfig.hashes (mainSecondHeader 0x1e0fffff) (some mainFirstIndex)

theorem mainTwoHeaders_timesAdvance :
    TimesAdvance mainConfig.params mainFirstIndex [mainGenesisIndex] [mainSecondIndex] := by
  have hfirst : contextualCheckBlockHeader mainConfig mainStart (mainFirstHeader 0x1e0fffff)
      [mainGenesisIndex] .init = (.returned (), .init) := by
    decide +kernel
  have hsecond : contextualCheckBlockHeader mainConfig mainStart (mainSecondHeader 0x1e0fffff)
      [mainFirstIndex, mainGenesisIndex] .init = (.returned (), .init) := by
    decide +kernel
  have hchain : AcceptedChain mainConfig [mainFirstIndex, mainGenesisIndex] :=
    .next (.first _) (by decide +kernel) hfirst rfl rfl
  have hlater : AcceptedChain mainConfig
      ([mainSecondIndex] ++ mainFirstIndex :: [mainGenesisIndex]) :=
    .next hchain (by decide +kernel) hsecond rfl rfl
  exact AcceptedChain.timesAdvance (.inl rfl) hlater

end Jumpcoin
