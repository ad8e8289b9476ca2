import Jumpcoin.Node.AcceptBlock
import Jumpcoin.Chain.Retarget

/-!
# Headers before blocks

The difficulty of a header above the last proof-of-work block is compared when the header arrives
and again when its block is connected. Both times the target is computed from the last two
proof-of-stake ancestors. Above the last proof-of-work block an entry is marked as proof-of-stake
with its header, but up to that height only with its block. So the first time the target is that of
the last two ancestors that are marked by then, and the verdicts agree if these are the last two.
-/

namespace Jumpcoin

open Check CValidationState List

/-! ## Entries -/

/-- What an entry at a given height says of its block, of which the header or all of it has arrived,
as far as targets depend on it. -/
structure Arrived (params : Params) (height : Nat) (block : CBlock) (hasData : Bool)
    (pindex : CBlockIndex) : Prop where
  nHeight : pindex.nHeight = height
  nTime : pindex.nTime = block.nTime
  nBits : pindex.nBits = block.nBits
  proofOfStake : pindex.isProofOfStake =
    (decide (params.nLastPOWBlock < height) || (hasData && block.isProofOfStake))

variable {params : Params} {block : CBlock} {pindex : CBlockIndex}

/-- A branch with its entries, the last block first; the genesis block has the height zero. -/
inductive BranchPath (params : Params) : List (CBlock × Bool) → List CBlockIndex → Prop
  | nil : BranchPath params [] []
  | cons {branch : List (CBlock × Bool)} {path : List CBlockIndex} {block : CBlock}
      {hasData : Bool} {pindex : CBlockIndex} :
      Arrived params branch.length block hasData pindex → BranchPath params branch path →
      BranchPath params ((block, hasData) :: branch) (pindex :: path)

variable {branch : List (CBlock × Bool)} {hasData : Bool} {path : List CBlockIndex}
variable {n : Nat}

def complete (branch : List (CBlock × Bool)) : List (CBlock × Bool) :=
  branch.map fun part => (part.1, true)

/-- The proof-of-stake blocks of a branch above its first block, each with whether its entry is
marked. -/
def stakeParts (params : Params) : List (CBlock × Bool) → List (CBlock × Bool)
  | (block, hasData) :: part :: branch =>
    if decide (params.nLastPOWBlock < ((part :: branch).length : Int)) || block.isProofOfStake then
      (block, decide (params.nLastPOWBlock < ((part :: branch).length : Int)) || hasData) ::
        stakeParts params (part :: branch)
    else stakeParts params (part :: branch)
  | _ => []

lemma stakeParts_complete (branch : List (CBlock × Bool)) :
    stakeParts params (complete branch) = complete (stakeParts params branch) := by
  induction branch with
  | nil => rfl
  | cons part branch ih =>
    cases branch with
    | nil => rfl
    | cons part' branch =>
      simp only [complete, map_cons, stakeParts, length_cons, length_map, Bool.or_true] at ih ⊢
      split_ifs
      · rw [ih, map_cons]
      · exact ih

/-- The two blocks below a header that is high enough are marked. -/
lemma stakeParts_above {part : CBlock × Bool}
    (h : params.nLastPOWBlock + 2 < ((part :: branch).length : Int)) :
    ∀ stake ∈ (stakeParts params (part :: branch)).take 2, stake.2 = true := by
  rw [length_cons, Nat.cast_succ] at h
  rcases branch with _ | ⟨before, _ | ⟨first, rest⟩⟩
  · simp [stakeParts]
  · have hlast : params.nLastPOWBlock < ([before].length : Int) := by omega
    simp only [stakeParts, decide_eq_true hlast, Bool.true_or, if_true]
    simp
  · have hlast : params.nLastPOWBlock < ((before :: first :: rest).length : Int) := by omega
    have hbefore : params.nLastPOWBlock < ((first :: rest).length : Int) := by
      rw [length_cons, Nat.cast_succ] at h
      omega
    simp only [stakeParts, decide_eq_true hlast, decide_eq_true hbefore, Bool.true_or, if_true]
    simp

/-! ## Targets -/

/-- The target after a block with the given time, from the proof-of-stake blocks before it. -/
def stakeTarget (params : Params) (nTime : Int) : List (CBlock × Bool) → UInt32
  | (block, _) :: (before, _) :: _ =>
    calculateNextTargetRequired params (timedIndex block.nTime block.nBits) before.getBlockTime true
  | _ => getCompact (getTargetLimit params nTime true)

lemma stakeTarget_complete (nTime : Int) (stakes : List (CBlock × Bool)) :
    stakeTarget params nTime (complete stakes) = stakeTarget params nTime stakes := by
  rcases stakes with _ | ⟨_, _ | ⟨_, _⟩⟩ <;> rfl

/-- Only the last two blocks count. -/
lemma stakeTarget_filter {nTime : Int} {stakes : List (CBlock × Bool)}
    (h : ∀ part ∈ stakes.take 2, part.2 = true) :
    stakeTarget params nTime (stakes.filter Prod.snd) = stakeTarget params nTime stakes := by
  rcases stakes with _ | ⟨first, _ | ⟨second, rest⟩⟩
  · rfl
  · rw [filter_cons_of_pos (h first (by simp)), filter_nil]
  · rw [filter_cons_of_pos (h first (by simp)), filter_cons_of_pos (h second (by simp))]
    rfl

lemma calculateNextTargetRequired_congr {e e' : CBlockIndex} (htime : e.nTime = e'.nTime)
    (hbits : e.nBits = e'.nBits) (nFirstBlockTime : Int) (fProofOfStake : Bool) :
    calculateNextTargetRequired params e nFirstBlockTime fProofOfStake =
      calculateNextTargetRequired params e' nFirstBlockTime fProofOfStake := by
  unfold calculateNextTargetRequired CBlockIndex.getBlockTime
  rw [htime, hbits]

lemma filter_stakeParts (part : CBlock × Bool) :
    (stakeParts params ((block, hasData) :: part :: branch)).filter Prod.snd =
      if decide (params.nLastPOWBlock < ((part :: branch).length : Int)) ||
          (hasData && block.isProofOfStake) then
        (block, true) :: (stakeParts params (part :: branch)).filter Prod.snd
      else (stakeParts params (part :: branch)).filter Prod.snd := by
  rw [stakeParts]
  cases decide (params.nLastPOWBlock < ((part :: branch).length : Int)) <;>
    cases block.isProofOfStake <;> cases hasData <;> simp

/-- `GetLastBlockIndex` finds the last block that is marked, or else the first block. -/
lemma BranchPath.getLastBlockIndex (h : BranchPath params branch path) :
    ((stakeParts params branch).filter Prod.snd = [] ∧
        (Jumpcoin.getLastBlockIndex true path).length ≤ 1) ∨
      ∃ block hasData part branch' pindex pprev path',
        Arrived params (part :: branch').length block hasData pindex ∧
        BranchPath params (part :: branch') (pprev :: path') ∧
        Jumpcoin.getLastBlockIndex true path = pindex :: pprev :: path' ∧
        (stakeParts params branch).filter Prod.snd =
          (block, true) :: (stakeParts params (part :: branch')).filter Prod.snd := by
  induction h with
  | nil => exact .inl ⟨rfl, by simp [Jumpcoin.getLastBlockIndex]⟩
  | @cons branch path block hasData pindex harrived hrest ih =>
    cases hrest with
    | nil => exact .inl ⟨rfl, by simp [Jumpcoin.getLastBlockIndex]⟩
    | @cons branch' path' part partData pprev harrived' hrest' =>
      simp only [filter_stakeParts, Jumpcoin.getLastBlockIndex, harrived.proofOfStake, ne_eq,
        ite_not]
      split_ifs with hmarked
      · exact .inr ⟨block, hasData, _, _, pindex, pprev, path', harrived,
          .cons harrived' hrest', rfl, rfl⟩
      · exact ih

lemma BranchPath.nextHeight_eq (h : BranchPath params branch path) :
    nextHeight path = branch.length := by
  cases h with
  | nil => rfl
  | cons harrived => rw [nextHeight, harrived.nHeight, length_cons]

lemma BranchPath.getNextTargetRequired {part : CBlock × Bool}
    (h : BranchPath params (part :: branch) path) :
    Jumpcoin.getNextTargetRequired params path true =
      stakeTarget params part.1.getBlockTime
        ((stakeParts params (part :: branch)).filter Prod.snd) := by
  obtain ⟨pindexLast, rest, rfl⟩ : ∃ pindexLast rest, path = pindexLast :: rest := by
    cases h with
    | cons => exact ⟨_, _, rfl⟩
  have hlimit : pindexLast.getBlockTime = part.1.getBlockTime := by
    cases h with
    | cons harrived =>
      rw [CBlockIndex.getBlockTime, harrived.nTime]
      rfl
  rw [Jumpcoin.getNextTargetRequired, hlimit]
  obtain ⟨hnone, hshort⟩ |
      ⟨block, _, _, _, pindex, pprev, path', harrived, hpath', hlast, hstakes⟩ :=
    h.getLastBlockIndex
  · rw [hnone]
    rcases hlast : Jumpcoin.getLastBlockIndex true (pindexLast :: rest) with _ | ⟨_, _ | ⟨_, _⟩⟩
    · rfl
    · rfl
    · simp [hlast] at hshort
  · rw [hlast, hstakes]
    dsimp only
    obtain ⟨hnone, hshort⟩ | ⟨_, _, _, _, _, _, _, harrived', -, hlast', hstakes'⟩ :=
      hpath'.getLastBlockIndex
    · rw [hnone]
      rcases hlast' : Jumpcoin.getLastBlockIndex true (pprev :: path') with _ | ⟨_, _ | ⟨_, _⟩⟩
      · rfl
      · rfl
      · simp [hlast'] at hshort
    · rw [hlast', hstakes']
      dsimp only [stakeTarget]
      rw [CBlockIndex.getBlockTime, harrived'.nTime]
      exact calculateNextTargetRequired_congr harrived.nTime harrived.nBits _ true

/-- Once all data have arrived, the target is that of the last two proof-of-stake blocks. -/
lemma BranchPath.getNextTargetRequired_complete {part : CBlock × Bool}
    (h : BranchPath params (complete (part :: branch)) path) :
    Jumpcoin.getNextTargetRequired params path true =
      stakeTarget params part.1.getBlockTime (stakeParts params (part :: branch)) := by
  have hall : (complete (stakeParts params (part :: branch))).filter Prod.snd =
      complete (stakeParts params (part :: branch)) := by
    simp [complete]
  rw [← stakeTarget_complete, ← hall, ← stakeParts_complete]
  exact h.getNextTargetRequired

/-! ## The check of a header -/

/-- `ContextualCheckBlockHeader` refuses a header for its target. -/
def RefusesTarget (config : Config) (chain : ChainState) (header : CBlockHeader)
    (path : List CBlockIndex) : Prop :=
  ∃ state, contextualCheckBlockHeader config chain header path .init = (.refused, state) ∧
    state.strRejectReason = "bad-diffbits"

section Header

variable {config : Config} {chain : ChainState} {header : CBlockHeader}

lemma contextualCheckBlockHeader_target
    (hok : (!(decide (config.params.nLastPOWBlock < chain.height) &&
      decide (config.params.nLastPOWBlock < (nextHeight path : Int)) &&
      header.nBits != getNextTargetRequired config.params path true)) = true) :
    ¬ RefusesTarget config chain header path := by
  have hreports : Reports (fun _ => True) (fun s => s.strRejectReason ≠ "bad-diffbits")
      (contextualCheckBlockHeader config chain header path) := by
    refine .ite (fun _ => .pure ()) fun _ => ?_
    refine .bind (.ensure fun s _ => by simp [doS]) fun _ => ?_
    rw [hok]
    refine .bind (.pure ()) fun _ => ?_
    refine .bind (.ensure fun s _ => by simp [doS]) fun _ => ?_
    refine .bind (.ensure fun s _ => by simp [doS]) fun _ => ?_
    refine .bind (.require _) fun _ => ?_
    exact .ensure fun s _ => by simp [markInvalid]
  rintro ⟨state, hrefused, hreason⟩
  exact (hreports .init trivial).2 state hrefused hreason

lemma refusesTarget_iff :
    RefusesTarget config chain header path ↔
      header.getHash config.hashes ≠ config.params.hashGenesisBlock ∧
        withinReorganizationDepth config.params chain.height (nextHeight path) = true ∧
        config.params.nLastPOWBlock < chain.height ∧
        config.params.nLastPOWBlock < (nextHeight path : Int) ∧
        header.nBits ≠ getNextTargetRequired config.params path true := by
  constructor
  · intro hrefused
    have hbad : decide (config.params.nLastPOWBlock < chain.height) = true ∧
        decide (config.params.nLastPOWBlock < (nextHeight path : Int)) = true ∧
        (header.nBits != getNextTargetRequired config.params path true) = true := by
      by_contra hok
      exact contextualCheckBlockHeader_target (by grind) hrefused
    obtain ⟨state, hstate, hreason⟩ := hrefused
    simp only [decide_eq_true_eq, bne_iff_ne] at hbad
    rw [contextualCheckBlockHeader] at hstate
    split_ifs at hstate with hgenesis
    · simp [pure_apply] at hstate
    refine ⟨hgenesis, Bool.not_eq_false _ ▸ fun hdeep => ?_, hbad⟩
    rw [bind_refused (ensure_eq_refused.mpr ⟨hdeep, rfl⟩), Prod.mk.injEq] at hstate
    simp [← hstate.2, doS] at hreason
  · rintro ⟨hgenesis, hdepth, hactive, habove, hbits⟩
    refine ⟨doS 100 REJECT_INVALID "bad-diffbits" .init, ?_, rfl⟩
    rw [contextualCheckBlockHeader, if_neg hgenesis, bind_returned (ensure_returned hdepth _)]
    refine bind_refused (ensure_eq_refused.mpr ⟨?_, rfl⟩)
    simp [hactive, habove, hbits]

/-- Let a header above the last proof-of-work block have the target it needs once all of its
ancestors have their data. It is refused for its target just if the target of the last two
proof-of-stake ancestors that are marked is another one. This does not happen if the last two are
marked, because they have their data or are above the last proof-of-work block, so never from the
third header above that block on. -/
theorem refusesTarget_iff_unmarked {part : CBlock × Bool} {full : List CBlockIndex}
    (hpath : BranchPath config.params (part :: branch) path)
    (hfull : BranchPath config.params (complete (part :: branch)) full)
    (habove : config.params.nLastPOWBlock < (nextHeight path : Int))
    (hbits : header.nBits = getNextTargetRequired config.params full true) :
    (RefusesTarget config chain header path ↔
      header.getHash config.hashes ≠ config.params.hashGenesisBlock ∧
        withinReorganizationDepth config.params chain.height (nextHeight path) = true ∧
        config.params.nLastPOWBlock < chain.height ∧
        stakeTarget config.params part.1.getBlockTime
            ((stakeParts config.params (part :: branch)).filter Prod.snd) ≠
          stakeTarget config.params part.1.getBlockTime
            (stakeParts config.params (part :: branch))) ∧
    (config.params.nLastPOWBlock + 2 < (nextHeight path : Int) ∨
        (∀ stake ∈ (stakeParts config.params (part :: branch)).take 2, stake.2 = true) →
      ¬ RefusesTarget config chain header path) := by
  have hiff : RefusesTarget config chain header path ↔ _ := refusesTarget_iff
  rw [hbits, hpath.getNextTargetRequired, hfull.getNextTargetRequired_complete] at hiff
  refine ⟨hiff.trans ?_, fun hmarked hrefused => ?_⟩
  · rw [ne_comm (a := stakeTarget _ _ (stakeParts _ _)), and_iff_right habove]
  · obtain ⟨-, -, -, -, hne⟩ := hiff.mp hrefused
    rw [hpath.nextHeight_eq] at hmarked
    exact hne (stakeTarget_filter (hmarked.elim stakeParts_above id)).symm

end Header

/-! ## A branch with a block missing -/

def arrivedPath (params : Params) : List (CBlock × Bool) → List CBlockIndex
  | [] => []
  | (block, hasData) :: branch =>
    { CBlockIndex.ofHeader 0 block.toCBlockHeader with
      nHeight := branch.length
      nStatus := { BlockStatus.empty with
        haveData := hasData
        proofOfStake := decide (params.nLastPOWBlock < (branch.length : Int)) ||
          (hasData && block.isProofOfStake) } } :: arrivedPath params branch

lemma branchPath_arrivedPath (branch : List (CBlock × Bool)) :
    BranchPath params branch (arrivedPath params branch) := by
  induction branch with
  | nil => exact .nil
  | cons part branch ih => exact .cons ⟨rfl, rfl, rfl, rfl⟩ ih

/-- The first block above the last proof-of-work block of the main network. -/
def branchTop : CBlock :=
  { toyStakeBlock 0 with nTime := 1700001072, nBits := 0x1a00ffff }

def workBranch (hasData : Bool) : List (CBlock × Bool) :=
  List.replicate 500 (toyBlock [toyCoinBase], hasData)

/-- Up to the height of the last proof-of-work block the branch has one proof-of-stake block, at
that height. -/
def stakeBranch (stakeData workData : Bool) : List (CBlock × Bool) :=
  (branchTop, true) :: (toyStakeBlock 0, stakeData) :: workBranch workData

/-- The target is the one after `branchTop`, with the spacing to the proof-of-stake block before
it. -/
def branchHeader : CBlockHeader :=
  { toyStakedHeader with
    nTime := 1700001088
    nBits := calculateNextTargetRequired mainConsensus (timedIndex 1700001072 0x1a00ffff) 1700001008
      true }

def branchConfig : Config :=
  { toyConfig with chainparams := mainParams }

def branchChain : ChainState :=
  { toyChain with chainActive := List.replicate 502 0 }

lemma length_workBranch (hasData : Bool) : (workBranch hasData).length = 500 :=
  length_replicate

lemma stakeParts_cons (hlength : branch.length = n + 1) :
    stakeParts params ((block, hasData) :: branch) =
      if decide (params.nLastPOWBlock < (n : Int) + 1) || block.isProofOfStake then
        (block, decide (params.nLastPOWBlock < (n : Int) + 1) || hasData) ::
          stakeParts params branch
      else stakeParts params branch := by
  obtain ⟨part, rest, rfl⟩ := exists_cons_of_length_eq_add_one hlength
  rw [stakeParts, hlength, Nat.cast_succ]

lemma stakeParts_replicate (hwork : block.isProofOfStake = false)
    (hle : (n : Int) ≤ params.nLastPOWBlock + 1) :
    stakeParts params (List.replicate n (block, hasData)) = [] := by
  induction n with
  | zero => rfl
  | succ n ih =>
    cases n with
    | zero => rfl
    | succ n =>
      rw [replicate_succ, stakeParts_cons length_replicate, hwork, ih (by omega),
        decide_eq_false (by omega)]
      simp

lemma stakeParts_stakeBranch (stakeData workData : Bool) :
    stakeParts branchConfig.params (stakeBranch stakeData workData) =
      [(branchTop, true), (toyStakeBlock 0, stakeData)] := by
  have hstake : (toyStakeBlock 0).isProofOfStake = true := by decide +kernel
  have hnone : stakeParts branchConfig.params (workBranch workData) = [] :=
    stakeParts_replicate (by decide +kernel) (by decide)
  have hlength := length_workBranch workData
  rw [stakeBranch, stakeParts_cons (by rw [length_cons, hlength]), stakeParts_cons hlength, hnone,
    hstake]
  rfl

lemma nextHeight_stakeBranch (stakeData workData : Bool) :
    nextHeight (arrivedPath branchConfig.params (stakeBranch stakeData workData)) = 502 := by
  rw [stakeBranch, arrivedPath, nextHeight, length_cons, length_workBranch]

lemma nBits_branchHeader (stakeData workData : Bool) :
    branchHeader.nBits = getNextTargetRequired branchConfig.params
      (arrivedPath branchConfig.params (complete (stakeBranch stakeData workData))) true := by
  have hpath : BranchPath branchConfig.params _ _ :=
    branchPath_arrivedPath (complete (stakeBranch stakeData workData))
  have htarget := hpath.getNextTargetRequired_complete
  rw [← stakeBranch, stakeParts_stakeBranch] at htarget
  exact htarget.symm

/-- The blocks below the last proof-of-stake block are known by their headers alone. -/
theorem stakeBranch_accepted :
    ¬ RefusesTarget branchConfig branchChain branchHeader
      (arrivedPath branchConfig.params (stakeBranch true false)) := by
  refine (refusesTarget_iff_unmarked (branchPath_arrivedPath _) (branchPath_arrivedPath _) ?_
    (nBits_branchHeader true false)).2 (.inr ?_)
  · rw [← stakeBranch, nextHeight_stakeBranch]
    decide
  · rw [← stakeBranch, stakeParts_stakeBranch]
    simp

/-- The last block that may be proof-of-work is proof-of-stake, and its header alone has arrived. -/
theorem missingStake_refused :
    branchHeader.nBits = getNextTargetRequired branchConfig.params
        (arrivedPath branchConfig.params (complete (stakeBranch false true))) true ∧
      RefusesTarget branchConfig branchChain branchHeader
        (arrivedPath branchConfig.params (stakeBranch false true)) := by
  have hnext := nextHeight_stakeBranch false true
  have hheight : branchChain.height = 501 := by
    rw [ChainState.height, branchChain, length_replicate]
    rfl
  have hpath : BranchPath branchConfig.params _ _ := branchPath_arrivedPath (stakeBranch false true)
  have htarget := hpath.getNextTargetRequired
  rw [← stakeBranch, stakeParts_stakeBranch] at htarget
  refine ⟨nBits_branchHeader false true, refusesTarget_iff.mpr ?_⟩
  rw [hnext, hheight, htarget]
  exact ⟨by decide +kernel, by decide, by decide, by decide, by decide +kernel⟩

end Jumpcoin
