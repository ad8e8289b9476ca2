import Jumpcoin.Validation.ConnectBlock

/-!
# Block headers

`AcceptBlockHeader` of `main.cpp` with the checks it makes, and the two messages that deliver
headers without blocks. For those the proof-of-stake flag of `AcceptBlockHeader` keeps its default,
so the proof of work is not looked at; and the difficulty is compared only once the active chain has
passed the last proof-of-work block.
-/

namespace Jumpcoin

open Check CValidationState

def MAX_HEADERS_RESULTS : Nat := 2000

def MAX_BLOCKS_TO_ANNOUNCE : Nat := 8

/-! ## Checks -/

section

variable (config : Config) (chain : ChainState) (pindexPrev : CBlockIndex)

/-- `CheckIndexAgainstCheckpoint`: no forks from the main chain before the last checkpoint. -/
def checkIndexAgainstCheckpoint : Validate Unit :=
  if pindexPrev.hashBlock = config.params.hashGenesisBlock then pure ()
  else
    match getLastCheckpoint chain config.chainparams.checkpoints with
    | none => pure ()
    | some pcheckpoint =>
      ensure (!decide (pindexPrev.nHeight + 1 < pcheckpoint.nHeight)) (doS 100 0 "")

def checkAgainstCheckpoint : Validate Unit :=
  if config.fCheckpointsEnabled then checkIndexAgainstCheckpoint config chain pindexPrev
  else pure ()

end

/-- The depth check of `ContextualCheckBlockHeader` on the height of a new header. -/
def withinReorganizationDepth (params : Params) (nActiveHeight nHeight : Int) : Bool :=
  !decide (params.nMaxReorganizationDepth ≤ nActiveHeight - nHeight)

def contextualCheckBlockHeader (config : Config) (chain : ChainState) (header : CBlockHeader)
    (path : List CBlockIndex) : Validate Unit :=
  if header.getHash config.hashes = config.params.hashGenesisBlock then pure ()
  else do
    let nHeight : Int := nextHeight path
    let nLastPOWBlock := config.params.nLastPOWBlock
    ensure (withinReorganizationDepth config.params chain.height nHeight) (doS 100 0 "")
    ensure (!(decide (nLastPOWBlock < chain.height) && decide (nLastPOWBlock < nHeight) &&
        header.nBits != getNextTargetRequired config.params path true))
      (doS 100 REJECT_INVALID "bad-diffbits")
    ensure (!(decide (nLastPOWBlock < nHeight) &&
        !checkStakeBlockTimestamp config.params header.getBlockTime))
      (doS 50 REJECT_INVALID "bad-pos-time")
    ensure (!decide (futureDrift config.params chain.height chain.adjustedTime <
        header.getBlockTime)) (doS 50 REJECT_INVALID "time-too-new")
    let nPastTimeLimit ← require (getPastTimeLimit config.params path)
    ensure (!decide (header.getBlockTime ≤ nPastTimeLimit))
      (markInvalid REJECT_INVALID "time-too-old" "")

/-! ## The index -/

def newBlockIndex (hashes : Hashes) (header : CBlockHeader) (pprev : Option CBlockIndex) :
    CBlockIndex :=
  let pindexNew := CBlockIndex.ofHeader (header.getHash hashes) header
  let pindexNew :=
    match pprev with
    | some pindexPrev =>
      { pindexNew with
        pprev := some header.hashPrevBlock
        nHeight := pindexPrev.nHeight + 1
        nChainWork := pindexPrev.nChainWork + getBlockProof header.nBits }
    | none => { pindexNew with nChainWork := 0 + getBlockProof header.nBits }
  { pindexNew with nStatus := pindexNew.nStatus.raiseValidity BLOCK_VALID_TREE }

/-- `AddToBlockIndex`; the entry is in the map when its predecessor is looked up. -/
def addToBlockIndex (hashes : Hashes) (mapBlockIndex : BlockMap) (header : CBlockHeader) :
    CBlockIndex :=
  let hash := header.getHash hashes
  match mapBlockIndex.lookup hash with
  | some pindex => pindex
  | none =>
    newBlockIndex hashes header
      ((mapBlockIndex.insert hash (CBlockIndex.ofHeader hash header)).lookup header.hashPrevBlock)

/-- Blocks after the last proof-of-work block are marked as proof-of-stake. -/
def markStake (params : Params) (pindex : CBlockIndex) : CBlockIndex :=
  if params.nLastPOWBlock < (pindex.nHeight : Int) then
    { pindex with nStatus := { pindex.nStatus with proofOfStake := true } }
  else pindex

section

variable (config : Config) (chain : ChainState) (header : CBlockHeader)
include header

/-- The end of `AcceptBlockHeader`: the entry is added and marked. -/
def linkHeader : ChainState × CBlockIndex :=
  let pindex := markStake config.params (addToBlockIndex config.hashes chain.mapBlockIndex header)
  ({ chain with
      mapBlockIndex := chain.mapBlockIndex.insert (header.getHash config.hashes) pindex }, pindex)

def checkNewHeader (fProofOfStake : Bool) : Validate Unit := do
  checkBlockHeader config.hashes config.params header (!fProofOfStake)
  match chain.mapBlockIndex.lookup header.hashPrevBlock with
  | none => refuse (doS 10 0 "bad-prevjump")
  | some pindexPrev => do
    ensure (!pindexPrev.nStatus.failed) (doS 100 REJECT_INVALID "bad-prevjump")
    checkAgainstCheckpoint config chain pindexPrev
    contextualCheckBlockHeader config chain header (pathOf chain.mapBlockIndex pindexPrev)

/-- `AcceptBlockHeader`: the chain state with the header in the index, and its entry. -/
def acceptBlockHeader (fProofOfStake : Bool) : Validate (ChainState × CBlockIndex) :=
  if header.getHash config.hashes = config.params.hashGenesisBlock then
    pure (linkHeader config chain header)
  else
    match chain.mapBlockIndex.lookup (header.getHash config.hashes) with
    | some pindex => do
      ensure (!pindex.nStatus.failed) (markInvalid 0 "duplicate" "")
      pure (chain, pindex)
    | none => do
      checkNewHeader config chain header fProofOfStake
      pure (linkHeader config chain header)

end

/-! ## Messages -/

/-- The loop of the `headers` message, with the entry accepted last. -/
def processHeadersLoop (config : Config) (chain : ChainState) (pindexLast : Option CBlockIndex) :
    List CBlockHeader → ChainState
  | [] => chain
  | header :: rest =>
    if pindexLast.any fun pindex => header.hashPrevBlock != pindex.hashBlock then chain
    else
      match acceptBlockHeader config chain header true .init with
      | (.returned (chain', pindex), _) => processHeadersLoop config chain' (some pindex) rest
      | (.refused, state) =>
        if state.isInvalid then chain else processHeadersLoop config chain pindexLast rest
      | (.halted, _) => chain

def processHeaders (config : Config) (chain : ChainState) (headers : List CBlockHeader) :
    ChainState :=
  match headers with
  | [] => chain
  | first :: _ =>
    if MAX_HEADERS_RESULTS < headers.length then chain
    else if (chain.mapBlockIndex.lookup first.hashPrevBlock).isNone ∧
        headers.length < MAX_BLOCKS_TO_ANNOUNCE then chain
    else processHeadersLoop config chain none headers

def processCompactHeader (config : Config) (chain : ChainState) (header : CBlockHeader) :
    ChainState :=
  if (chain.mapBlockIndex.lookup header.hashPrevBlock).isNone then chain
  else
    match acceptBlockHeader config chain header true .init with
    | (.returned (chain', _), _) => chain'
    | _ => chain

/-! ## Invariants of the messages -/

section Messages

variable {config : Config} {chain : ChainState} {Q : CBlockHeader → Prop}
variable {P : ChainState → Prop}

variable {headers : List CBlockHeader}
  (hstep : ∀ chain header chain' pindex state', P chain → Q header → acceptBlockHeader config
    chain header true .init = (.returned (chain', pindex), state') → P chain')

include hstep

/-- What acceptance of single headers preserves, the loop of the `headers` message preserves. -/
lemma processHeadersLoop_preserves {pindexLast : Option CBlockIndex}
    (hok : ∀ header ∈ headers, Q header) (hchain : P chain) :
    P (processHeadersLoop config chain pindexLast headers) := by
  induction headers generalizing chain pindexLast with
  | nil => exact hchain
  | cons header rest ih =>
    have hrest : ∀ header ∈ rest, Q header := fun header' hmem =>
      hok header' (List.mem_cons_of_mem _ hmem)
    unfold processHeadersLoop
    split_ifs
    · exact hchain
    rcases haccept : acceptBlockHeader config chain header true .init with
      ⟨⟨chain', pindex⟩ | _ | _, state⟩
    · exact ih hrest (hstep chain header chain' pindex state hchain (hok header (by simp)) haccept)
    · dsimp only
      split_ifs
      · exact hchain
      · exact ih hrest hchain
    · exact hchain

lemma processHeaders_preserves (hok : ∀ header ∈ headers, Q header) (hchain : P chain) :
    P (processHeaders config chain headers) := by
  unfold processHeaders
  cases headers with
  | nil => exact hchain
  | cons first rest =>
    dsimp only
    split_ifs
    · exact hchain
    · exact hchain
    · exact processHeadersLoop_preserves hstep hok hchain

lemma processCompactHeader_preserves {header : CBlockHeader} (hok : Q header) (hchain : P chain) :
    P (processCompactHeader config chain header) := by
  unfold processCompactHeader
  split_ifs
  · exact hchain
  rcases haccept : acceptBlockHeader config chain header true .init with
      ⟨⟨chain', pindex⟩ | _ | _, state⟩
  · exact hstep chain header chain' pindex state hchain hok haccept
  · exact hchain
  · exact hchain

end Messages

/-! ## What acceptance does to the index -/

section Acceptance

variable {config : Config} {chain chain' : ChainState} {header : CBlockHeader}
variable {fProofOfStake : Bool} {pindex : CBlockIndex} {state state' : CValidationState}
variable {r : ChainState × CBlockIndex}

/-- A header that is not known is accepted on top of an entry that has not failed, within the depth
limit. -/
lemma checkNewHeader_returned
    (h : checkNewHeader config chain header fProofOfStake state = (.returned (), state')) :
    ∃ pindexPrev, chain.mapBlockIndex.lookup header.hashPrevBlock = some pindexPrev ∧
      pindexPrev.nStatus.failed = false ∧
      (header.getHash config.hashes ≠ config.params.hashGenesisBlock →
        withinReorganizationDepth config.params chain.height (pindexPrev.nHeight + 1) = true) := by
  obtain ⟨_, s₁, -, h⟩ := bind_eq_returned.mp h
  cases hprev : chain.mapBlockIndex.lookup header.hashPrevBlock with
  | none =>
    rw [hprev] at h
    exact absurd h refuse_ne_returned
  | some pindexPrev =>
    simp only [hprev, bind_eq_returned, ensure_eq_returned] at h
    obtain ⟨_, _, ⟨hfailed, -⟩, _, _, -, hcontext⟩ := h
    refine ⟨pindexPrev, rfl, by simpa using hfailed, fun hgen => ?_⟩
    simp only [contextualCheckBlockHeader, if_neg hgen, bind_eq_returned, ensure_eq_returned]
      at hcontext
    obtain ⟨_, _, ⟨hdepth, -⟩, -⟩ := hcontext
    exact hdepth

/-- Acceptance finds the entry in the index, or adds one on top of a known entry. -/
lemma acceptBlockHeader_returned
    (h : acceptBlockHeader config chain header fProofOfStake state = (.returned r, state')) :
    (header.getHash config.hashes = config.params.hashGenesisBlock ∧
        r = linkHeader config chain header) ∨
      (∃ pindex, r = (chain, pindex) ∧ pindex.nStatus.failed = false ∧
        chain.mapBlockIndex.lookup (header.getHash config.hashes) = some pindex) ∨
      (chain.mapBlockIndex.lookup (header.getHash config.hashes) = none ∧
        r = linkHeader config chain header ∧
        ∃ pindexPrev, chain.mapBlockIndex.lookup header.hashPrevBlock = some pindexPrev ∧
          pindexPrev.nStatus.failed = false ∧
          withinReorganizationDepth config.params chain.height (pindexPrev.nHeight + 1) =
            true) := by
  unfold acceptBlockHeader at h
  by_cases hgen : header.getHash config.hashes = config.params.hashGenesisBlock
  · rw [if_pos hgen] at h
    exact .inl ⟨hgen, (pure_eq_returned.mp h).1.symm⟩
  · rw [if_neg hgen] at h
    cases hknown : chain.mapBlockIndex.lookup (header.getHash config.hashes) with
    | some pindex =>
      simp only [hknown, bind_eq_returned, ensure_eq_returned, pure_eq_returned] at h
      obtain ⟨_, _, ⟨hfailed, -⟩, rfl, -⟩ := h
      exact .inr (.inl ⟨pindex, rfl, by simpa using hfailed, rfl⟩)
    | none =>
      simp only [hknown, bind_eq_returned, pure_eq_returned] at h
      obtain ⟨_, _, hcheck, rfl, -⟩ := h
      obtain ⟨pindexPrev, hprev, hfailed, hdepth⟩ := checkNewHeader_returned hcheck
      exact .inr (.inr ⟨rfl, rfl, pindexPrev, hprev, hfailed, hdepth hgen⟩)

lemma markStake_status (params : Params) (pindex : CBlockIndex) :
    ∃ proofOfStake, markStake params pindex =
      { pindex with nStatus := { pindex.nStatus with proofOfStake } } := by
  unfold markStake
  split_ifs
  · exact ⟨true, rfl⟩
  · exact ⟨pindex.nStatus.proofOfStake, rfl⟩

variable {mapBlockIndex : BlockMap}

lemma addToBlockIndex_of_new {pindexPrev : CBlockIndex}
    (hnew : mapBlockIndex.lookup (header.getHash config.hashes) = none)
    (hprev : mapBlockIndex.lookup header.hashPrevBlock = some pindexPrev) :
    addToBlockIndex config.hashes mapBlockIndex header =
      newBlockIndex config.hashes header (some pindexPrev) := by
  have hne : header.hashPrevBlock ≠ header.getHash config.hashes := by
    intro heq
    rw [heq, hnew] at hprev
    cases hprev
  simp only [addToBlockIndex, hnew]
  rw [Finmap.lookup_insert_of_ne _ hne, hprev]

end Acceptance

/-! ## How the index grows -/

/-- Two versions of one entry: what is fixed when an entry is made is the same in both. -/
structure SameEntry (pindex pindex' : CBlockIndex) : Prop where
  hashBlock : pindex'.hashBlock = pindex.hashBlock
  pprev : pindex'.pprev = pindex.pprev
  nHeight : pindex'.nHeight = pindex.nHeight
  nChainWork : pindex'.nChainWork = pindex.nChainWork
  nBits : pindex'.nBits = pindex.nBits

lemma SameEntry.refl (pindex : CBlockIndex) : SameEntry pindex pindex :=
  ⟨rfl, rfl, rfl, rfl, rfl⟩

lemma SameEntry.trans {e₁ e₂ e₃ : CBlockIndex} (h : SameEntry e₁ e₂) (h' : SameEntry e₂ e₃) :
    SameEntry e₁ e₃ :=
  ⟨h'.hashBlock.trans h.hashBlock, h'.pprev.trans h.pprev, h'.nHeight.trans h.nHeight,
    h'.nChainWork.trans h.nChainWork, h'.nBits.trans h.nBits⟩

def Extends (m m' : BlockMap) : Prop :=
  ∀ hash pindex, m.lookup hash = some pindex →
    ∃ pindex', m'.lookup hash = some pindex' ∧ SameEntry pindex pindex'

structure SameIndex (m m' : BlockMap) : Prop where
  kept : Extends m m'
  unknown : ∀ hash, m.lookup hash = none → m'.lookup hash = none

lemma Extends.refl (m : BlockMap) : Extends m m :=
  fun _ pindex h => ⟨pindex, h, .refl pindex⟩

variable {m₁ m₂ m₃ : BlockMap}

lemma Extends.trans (h : Extends m₁ m₂) (h' : Extends m₂ m₃) : Extends m₁ m₃ := by
  intro hash pindex hlookup
  obtain ⟨pindex₂, hlookup₂, hsame⟩ := h hash pindex hlookup
  obtain ⟨pindex₃, hlookup₃, hsame'⟩ := h' hash pindex₂ hlookup₂
  exact ⟨pindex₃, hlookup₃, hsame.trans hsame'⟩

lemma SameIndex.refl (m : BlockMap) : SameIndex m m :=
  ⟨.refl m, fun _ h => h⟩

lemma SameIndex.trans (h : SameIndex m₁ m₂) (h' : SameIndex m₂ m₃) : SameIndex m₁ m₃ :=
  ⟨h.kept.trans h'.kept, fun hash hnone => h'.unknown hash (h.unknown hash hnone)⟩

variable {hash : Uint256} {pindex' : CBlockIndex} {m m' : BlockMap} {pindex : CBlockIndex}

/-- An entry of the second index is a version of one of the first. -/
lemma SameIndex.exists_of_lookup (h : SameIndex m m') (hlookup : m'.lookup hash = some pindex') :
    ∃ pindex, m.lookup hash = some pindex ∧ SameEntry pindex pindex' := by
  cases hold : m.lookup hash with
  | none =>
    rw [h.unknown hash hold] at hlookup
    cases hlookup
  | some pindex =>
    obtain ⟨pindex₁, hlookup₁, hsame⟩ := h.kept hash pindex hold
    obtain rfl : pindex₁ = pindex' := Option.some.inj (hlookup₁.symm.trans hlookup)
    exact ⟨pindex, rfl, hsame⟩

def Keyed (m : BlockMap) : Prop :=
  ∀ hash pindex, m.lookup hash = some pindex → pindex.hashBlock = hash

lemma Keyed.insert (h : Keyed m) (pindex : CBlockIndex) :
    Keyed (m.insert pindex.hashBlock pindex) := by
  intro hash pindex' hlookup
  rcases lookup_insert_cases hlookup with ⟨rfl, rfl⟩ | ⟨-, hlookup⟩
  · rfl
  · exact h hash pindex' hlookup

lemma Keyed.sameIndex (h : Keyed m) (hsame : SameIndex m m') : Keyed m' := by
  intro hash pindex' hlookup'
  obtain ⟨pindex, hlookup, heq⟩ := hsame.exists_of_lookup hlookup'
  rw [heq.hashBlock, h hash pindex hlookup]

lemma SameIndex.insert (hlookup : m.lookup hash = some pindex)
    (hsame : SameEntry pindex pindex') : SameIndex m (m.insert hash pindex') := by
  constructor
  · intro hash₁ pindex₁ hlookup₁
    by_cases heq : hash₁ = hash
    · subst heq
      obtain rfl : pindex = pindex₁ := Option.some.inj (hlookup.symm.trans hlookup₁)
      exact ⟨pindex', Finmap.lookup_insert _, hsame⟩
    · exact ⟨pindex₁, (Finmap.lookup_insert_of_ne _ heq).trans hlookup₁, .refl _⟩
  · intro hash₁ hnone
    have hne : hash₁ ≠ hash := by
      rintro rfl
      rw [hlookup] at hnone
      cases hnone
    rw [Finmap.lookup_insert_of_ne _ hne, hnone]

lemma Extends.insert (pindex : CBlockIndex) (hnew : m.lookup hash = none) :
    Extends m (m.insert hash pindex) := by
  intro hash₁ pindex₁ hlookup₁
  have hne : hash₁ ≠ hash := by
    rintro rfl
    rw [hnew] at hlookup₁
    cases hlookup₁
  exact ⟨pindex₁, (Finmap.lookup_insert_of_ne _ hne).trans hlookup₁, .refl _⟩

structure NewEntry (config : Config) (chain : ChainState) (header : CBlockHeader)
    (pindexPrev pindex : CBlockIndex) : Prop where
  unknown : chain.mapBlockIndex.lookup (header.getHash config.hashes) = none
  prev : chain.mapBlockIndex.lookup header.hashPrevBlock = some pindexPrev
  depth : withinReorganizationDepth config.params chain.height (pindexPrev.nHeight + 1) = true
  hashBlock : pindex.hashBlock = header.getHash config.hashes
  pprev : pindex.pprev = some header.hashPrevBlock
  nHeight : pindex.nHeight = pindexPrev.nHeight + 1
  nChainWork : pindex.nChainWork = pindexPrev.nChainWork + getBlockProof header.nBits
  nBits : pindex.nBits = header.nBits

def ChainState.withEntry (chain : ChainState) (hash : Uint256) (pindex : CBlockIndex) :
    ChainState × CBlockIndex :=
  ({ chain with mapBlockIndex := chain.mapBlockIndex.insert hash pindex }, pindex)

/-- The ways a header is accepted by a node that has its genesis block. -/
inductive HeaderAccepted (config : Config) (chain : ChainState) (header : CBlockHeader) :
    ChainState × CBlockIndex → Prop
  | genesis {pindex : CBlockIndex} :
      header.getHash config.hashes = config.params.hashGenesisBlock →
      chain.mapBlockIndex.lookup (header.getHash config.hashes) = some pindex →
      HeaderAccepted config chain header
        (chain.withEntry (header.getHash config.hashes) (markStake config.params pindex))
  | known {pindex : CBlockIndex} :
      chain.mapBlockIndex.lookup (header.getHash config.hashes) = some pindex →
      pindex.nStatus.failed = false → HeaderAccepted config chain header (chain, pindex)
  | added {pindexPrev : CBlockIndex} :
      chain.mapBlockIndex.lookup (header.getHash config.hashes) = none →
      chain.mapBlockIndex.lookup header.hashPrevBlock = some pindexPrev →
      pindexPrev.nStatus.failed = false →
      withinReorganizationDepth config.params chain.height (pindexPrev.nHeight + 1) = true →
      HeaderAccepted config chain header (chain.withEntry (header.getHash config.hashes)
        (markStake config.params (newBlockIndex config.hashes header (some pindexPrev))))

variable {config : Config} {chain chain' : ChainState} {header : CBlockHeader}
variable {fProofOfStake : Bool} {r : ChainState × CBlockIndex} {state state' : CValidationState}

section

variable (hgenesis : (chain.mapBlockIndex.lookup config.params.hashGenesisBlock).isSome = true)
include hgenesis

lemma acceptBlockHeader_accepted
    (h : acceptBlockHeader config chain header fProofOfStake state = (.returned r, state')) :
    HeaderAccepted config chain header r := by
  obtain ⟨hgen, rfl⟩ | ⟨pindex, rfl, hfailed, hknown⟩ |
    ⟨hnew, rfl, pindexPrev, hprev, hfailed, hdepth⟩ := acceptBlockHeader_returned h
  · obtain ⟨pindex, hpindex⟩ := Option.isSome_iff_exists.mp hgenesis
    rw [← hgen] at hpindex
    simp only [linkHeader, addToBlockIndex, hpindex]
    exact .genesis hgen hpindex
  · exact .known hknown hfailed
  · rw [linkHeader, addToBlockIndex_of_new hnew hprev]
    exact .added hnew hprev hfailed hdepth

/-- On a node that has its genesis block, acceptance of a header leaves the index as it is or adds
the entry of a new header. -/
lemma acceptBlockHeader_cases
    (h : acceptBlockHeader config chain header fProofOfStake state =
      (.returned (chain', pindex), state')) :
    ∃ m, chain' = { chain with mapBlockIndex := m } ∧
      m.lookup (header.getHash config.hashes) = some pindex ∧
      (SameIndex chain.mapBlockIndex m ∨
        ∃ pindexPrev, NewEntry config chain header pindexPrev pindex ∧
          m = chain.mapBlockIndex.insert (header.getHash config.hashes) pindex) := by
  cases acceptBlockHeader_accepted hgenesis h with
  | @genesis pindex₀ hgen hpindex₀ =>
    obtain ⟨proofOfStake, hmark⟩ := markStake_status config.params pindex₀
    refine ⟨_, rfl, Finmap.lookup_insert _, .inl (.insert hpindex₀ ?_)⟩
    rw [hmark]
    exact ⟨rfl, rfl, rfl, rfl, rfl⟩
  | known hknown _ => exact ⟨_, rfl, hknown, .inl (.refl _)⟩
  | @added pindexPrev hnew hprev _ hdepth =>
    obtain ⟨proofOfStake, hmark⟩ := markStake_status config.params
      (newBlockIndex config.hashes header (some pindexPrev))
    refine ⟨_, rfl, Finmap.lookup_insert _, .inr ⟨pindexPrev, ?_, rfl⟩⟩
    rw [hmark]
    exact ⟨hnew, hprev, hdepth, rfl, rfl, rfl, rfl, rfl⟩

end

end Jumpcoin
