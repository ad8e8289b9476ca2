import Jumpcoin.Node.Headers

/-!
# Chain work

The work of an entry is that of its predecessor plus its own proof, modulo `2 ^ 256`. As long as
all targets are at least `2 ^ 32`, an entry of height `h` has work at most `(h + 1) * 2 ^ 224`, and
no sum wraps. Nothing in the acceptance of headers enforces such a bound while the active chain is
in the proof-of-work phase: two headers with the target 1 suffice to wrap the sum.
-/

namespace Jumpcoin

open Check CValidationState Option

/-- A target that stands for at most `2 ^ 224` hashes, or one that is malformed and counts for
nothing. -/
def SaneTarget (nBits : UInt32) : Prop :=
  getBlockProof nBits = 0 ∨ 2 ^ 32 ≤ (setCompact nBits).bnTarget.toNat

instance (nBits : UInt32) : Decidable (SaneTarget nBits) :=
  inferInstanceAs (Decidable (_ ∨ _))

lemma SaneTarget.proof_le {nBits : UInt32} (h : SaneTarget nBits) :
    (getBlockProof nBits).toNat ≤ 2 ^ 224 := by
  rcases h with hzero | hlarge
  · rw [hzero]
    exact Nat.zero_le _
  · exact getBlockProof_le (by norm_num) hlarge

/-- The work of an entry is the work of its predecessor plus its own proof, in unbounded
integers. -/
def FaithfulWork (mapBlockIndex : BlockMap) (pindex : CBlockIndex) : Prop :=
  ∃ hashPrev pindexPrev, pindex.pprev = some hashPrev ∧
    mapBlockIndex.lookup hashPrev = some pindexPrev ∧
    pindex.nChainWork.toNat = pindexPrev.nChainWork.toNat + pindex.getBlockProof.toNat

def IntHeight (pindex : CBlockIndex) : Prop := pindex.nHeight < 2 ^ 31

instance (pindex : CBlockIndex) : Decidable (IntHeight pindex) :=
  inferInstanceAs (Decidable (_ < _))

def WorkBounded (mapBlockIndex : BlockMap) : Prop :=
  ∀ hash pindex, mapBlockIndex.lookup hash = some pindex → IntHeight pindex →
    pindex.nChainWork.toNat ≤ (pindex.nHeight + 1) * 2 ^ 224

/-! ## Runs -/

/-- What happens to the index of a node: headers arrive by `headers` and `cmpctblock` messages and
with blocks, and everything else leaves its entries as they are. -/
inductive HeaderRun (config : Config) (ok : CBlockHeader → Prop) (start : ChainState) :
    ChainState → Prop
  | refl : HeaderRun config ok start start
  | headers {chain : ChainState} (headers : List CBlockHeader) :
      HeaderRun config ok start chain → (∀ header ∈ headers, ok header) →
      HeaderRun config ok start (processHeaders config chain headers)
  | compact {chain : ChainState} (header : CBlockHeader) :
      HeaderRun config ok start chain → ok header →
      HeaderRun config ok start (processCompactHeader config chain header)
  | block {chain chain' : ChainState} {header : CBlockHeader} {fProofOfStake : Bool}
      {pindex : CBlockIndex} {state state' : CValidationState} :
      HeaderRun config ok start chain → ok header →
      acceptBlockHeader config chain header fProofOfStake state =
        (.returned (chain', pindex), state') →
      HeaderRun config ok start chain'
  | elsewhere {chain chain' : ChainState} :
      HeaderRun config ok start chain → SameIndex chain.mapBlockIndex chain'.mapBlockIndex →
      HeaderRun config ok start chain'

/-- What a run with sane targets keeps: the entries there were, the bound on the work, and that the
work of entries added since is faithful. -/
structure WorkInvariant (start : BlockMap) (m : BlockMap) : Prop where
  kept : Extends start m
  bounded : WorkBounded m
  faithful : ∀ hash pindex, m.lookup hash = some pindex → start.lookup hash = none →
    IntHeight pindex → FaithfulWork m pindex

section Run

variable {config : Config} {start m m' : BlockMap} {chain chain' : ChainState}
variable {header : CBlockHeader} {fProofOfStake : Bool} {pindex : CBlockIndex}
variable {state state' : CValidationState} {pindexPrev : CBlockIndex}

lemma FaithfulWork.extends (h : FaithfulWork m pindex) (hext : Extends m m') :
    FaithfulWork m' pindex := by
  obtain ⟨hashPrev, pindexPrev, hpprev, hlookup, hwork⟩ := h
  obtain ⟨pindexPrev', hlookup', hsame⟩ := hext hashPrev pindexPrev hlookup
  exact ⟨hashPrev, pindexPrev', hpprev, hlookup', by rw [hwork, hsame.nChainWork]⟩

lemma WorkInvariant.sameIndex (h : WorkInvariant start m) (hsame : SameIndex m m') :
    WorkInvariant start m' := by
  refine ⟨h.kept.trans hsame.kept, ?_, ?_⟩
  · intro hash pindex' hlookup' hint
    obtain ⟨pindex, hlookup, heq⟩ := hsame.exists_of_lookup hlookup'
    unfold IntHeight at hint
    rw [heq.nHeight] at hint ⊢
    rw [heq.nChainWork]
    exact h.bounded hash pindex hlookup hint
  · intro hash pindex' hlookup' hnew hint
    obtain ⟨pindex, hlookup, heq⟩ := hsame.exists_of_lookup hlookup'
    unfold IntHeight at hint
    rw [heq.nHeight] at hint
    obtain ⟨hashPrev, pindexPrev, hpprev, hprev, hwork⟩ :=
      (h.faithful hash pindex hlookup hnew hint).extends hsame.kept
    refine ⟨hashPrev, pindexPrev, heq.pprev.trans hpprev, hprev, ?_⟩
    rw [heq.nChainWork, hwork, CBlockIndex.getBlockProof, CBlockIndex.getBlockProof, heq.nBits]

/-- The sum for a new entry with a sane target does not wrap. -/
lemma NewEntry.work (hnew : NewEntry config chain header pindexPrev pindex)
    (hbounded : WorkBounded chain.mapBlockIndex) (hsane : SaneTarget header.nBits)
    (hint : IntHeight pindex) :
    pindex.nChainWork.toNat = pindexPrev.nChainWork.toNat + pindex.getBlockProof.toNat ∧
      pindex.nChainWork.toNat ≤ (pindex.nHeight + 1) * 2 ^ 224 := by
  unfold IntHeight at hint
  rw [hnew.nHeight] at hint ⊢
  have hprev : pindexPrev.nChainWork.toNat ≤ (pindexPrev.nHeight + 1) * 2 ^ 224 :=
    hbounded _ pindexPrev hnew.prev (by unfold IntHeight; omega)
  have hproof := hsane.proof_le
  have hproof' : pindex.getBlockProof = getBlockProof header.nBits := by
    rw [CBlockIndex.getBlockProof, hnew.nBits]
  have hsum : pindexPrev.nChainWork.toNat + (getBlockProof header.nBits).toNat ≤
      (pindexPrev.nHeight + 1 + 1) * 2 ^ 224 := by
    rw [Nat.add_mul (pindexPrev.nHeight + 1), Nat.one_mul]
    exact Nat.add_le_add hprev hproof
  have hsmall : (pindexPrev.nHeight + 1 + 1) * 2 ^ 224 < 2 ^ 256 := by
    have hle : (pindexPrev.nHeight + 1 + 1) * 2 ^ 224 ≤ (2 ^ 31 + 1) * 2 ^ 224 :=
      Nat.mul_le_mul_right _ (by omega)
    exact lt_of_le_of_lt hle (by norm_num)
  have hexact : pindex.nChainWork.toNat =
      pindexPrev.nChainWork.toNat + (getBlockProof header.nBits).toNat := by
    rw [hnew.nChainWork, BitVec.toNat_add]
    exact Nat.mod_eq_of_lt (lt_of_le_of_lt hsum hsmall)
  rw [hproof']
  exact ⟨hexact, hexact ▸ hsum⟩

lemma WorkInvariant.insert (h : WorkInvariant start chain.mapBlockIndex)
    (hnew : NewEntry config chain header pindexPrev pindex) (hsane : SaneTarget header.nBits) :
    WorkInvariant start
      (chain.mapBlockIndex.insert (header.getHash config.hashes) pindex) := by
  have hext := Extends.insert pindex hnew.unknown
  refine ⟨h.kept.trans hext, ?_, ?_⟩
  · intro hash pindex' hlookup hint
    rcases lookup_insert_cases hlookup with ⟨rfl, rfl⟩ | ⟨-, hlookup⟩
    · exact (hnew.work h.bounded hsane hint).2
    · exact h.bounded hash pindex' hlookup hint
  · intro hash pindex' hlookup hstart hint
    rcases lookup_insert_cases hlookup with ⟨rfl, rfl⟩ | ⟨-, hlookup⟩
    · obtain ⟨pindexPrev', hprev', hsame⟩ := hext _ _ hnew.prev
      refine ⟨header.hashPrevBlock, pindexPrev', hnew.pprev, hprev', ?_⟩
      rw [hsame.nChainWork]
      exact (hnew.work h.bounded hsane hint).1
    · exact (h.faithful hash pindex' hlookup hstart hint).extends hext

lemma WorkInvariant.accept (h : WorkInvariant start chain.mapBlockIndex)
    (hgenesis : (start.lookup config.params.hashGenesisBlock).isSome = true)
    (hsane : SaneTarget header.nBits)
    (haccept : acceptBlockHeader config chain header fProofOfStake state =
      (.returned (chain', pindex), state')) : WorkInvariant start chain'.mapBlockIndex := by
  have hgenesis' : (chain.mapBlockIndex.lookup config.params.hashGenesisBlock).isSome = true := by
    obtain ⟨pindex₀, hpindex₀⟩ := isSome_iff_exists.mp hgenesis
    obtain ⟨pindex₁, hpindex₁, -⟩ := h.kept _ pindex₀ hpindex₀
    exact isSome_iff_exists.mpr ⟨pindex₁, hpindex₁⟩
  obtain ⟨m, rfl, -, hsame | ⟨pindexPrev, hnew, rfl⟩⟩ := acceptBlockHeader_cases hgenesis' haccept
  · exact h.sameIndex hsame
  · exact h.insert hnew hsane

lemma HeaderRun.workInvariant {start chain : ChainState}
    (h : HeaderRun config (fun header => SaneTarget header.nBits) start chain)
    (hgenesis : (start.mapBlockIndex.lookup config.params.hashGenesisBlock).isSome = true)
    (hstart : WorkBounded start.mapBlockIndex) :
    WorkInvariant start.mapBlockIndex chain.mapBlockIndex := by
  induction h with
  | refl =>
    refine ⟨.refl _, hstart, fun hash pindex hlookup hnone => ?_⟩
    rw [hlookup] at hnone
    cases hnone
  | headers headers _ hok ih =>
    exact processHeaders_preserves
      (P := fun chain => WorkInvariant start.mapBlockIndex chain.mapBlockIndex)
      (fun _ _ _ _ _ hinv hsane haccept => hinv.accept hgenesis hsane haccept) hok ih
  | compact header _ hok ih =>
    exact processCompactHeader_preserves
      (P := fun chain => WorkInvariant start.mapBlockIndex chain.mapBlockIndex)
      (fun _ _ _ _ _ hinv hsane haccept => hinv.accept hgenesis hsane haccept) hok ih
  | block _ hok haccept ih => exact ih.accept hgenesis hok haccept
  | elsewhere _ hsame ih => exact ih.sameIndex hsame

end Run

/-- In every run in which all headers have sane targets, the work of each entry that was added is
the work of its predecessor plus its own proof. -/
theorem headerRun_faithfulWork {config : Config} {start chain : ChainState}
    (hgenesis : (start.mapBlockIndex.lookup config.params.hashGenesisBlock).isSome = true)
    (hstart : WorkBounded start.mapBlockIndex)
    (hrun : HeaderRun config (fun header => SaneTarget header.nBits) start chain) :
    ∀ hash pindex, chain.mapBlockIndex.lookup hash = some pindex →
      start.mapBlockIndex.lookup hash = none → IntHeight pindex →
      FaithfulWork chain.mapBlockIndex pindex :=
  (hrun.workInvariant hgenesis hstart).faithful

/-! ## The main network at its start -/

def mainConfig : Config :=
  { toyConfig with chainparams := mainParams }

def mainGenesisIndex : CBlockIndex :=
  { toyIndex mainConsensus.hashGenesisBlock none 0 1696771811 with
    nChainWork := getBlockProof 0x1e0fffff
    nBits := 0x1e0fffff }

def mainStart : ChainState :=
  { toyChain with
    mapBlockIndex := Finmap.singleton mainConsensus.hashGenesisBlock mainGenesisIndex
    chainActive := [mainConsensus.hashGenesisBlock]
    pcoinsTip := ⟨∅, mainConsensus.hashGenesisBlock⟩ }

def mainHeader (hashPrevBlock : Uint256) (nTime nBits : UInt32) : CBlockHeader where
  nVersion := 7
  hashPrevBlock
  hashMerkleRoot := 0
  nTime
  nBits
  nNonce := 0

def mainFirstHeader (nBits : UInt32) : CBlockHeader :=
  mainHeader mainConsensus.hashGenesisBlock 1699990016 nBits

def mainSecondHeader (nBits : UInt32) : CBlockHeader :=
  mainHeader ((mainFirstHeader nBits).getHash toyCrypto.toHashes) 1699990032 nBits

def mainTwoHeaders (nBits : UInt32) : ChainState :=
  processHeaders mainConfig mainStart [mainFirstHeader nBits, mainSecondHeader nBits]

lemma mainStart_workBounded : WorkBounded mainStart.mapBlockIndex := by
  intro hash pindex hlookup _
  have hcases : hash = mainConsensus.hashGenesisBlock := by
    by_contra hne
    rw [Finmap.lookup_eq_none.mpr (by simpa [mainStart] using hne)] at hlookup
    cases hlookup
  subst hcases
  obtain rfl : mainGenesisIndex = pindex := by
    simpa [mainStart, Finmap.lookup_singleton_eq] using hlookup
  decide +kernel

/-- At the minimum difficulty the second of two headers has the work of three blocks. -/
theorem mainTwoHeaders_faithfulWork :
    (mainStart.mapBlockIndex.lookup mainConfig.params.hashGenesisBlock).isSome = true ∧
      WorkBounded mainStart.mapBlockIndex ∧
      ∃ pindex, (mainTwoHeaders 0x1e0fffff).mapBlockIndex.lookup
          ((mainSecondHeader 0x1e0fffff).getHash toyCrypto.toHashes) = some pindex ∧
        FaithfulWork (mainTwoHeaders 0x1e0fffff).mapBlockIndex pindex := by
  have hgenesis : (mainStart.mapBlockIndex.lookup mainConfig.params.hashGenesisBlock).isSome =
      true := by
    decide +kernel
  have hfound : ((mainTwoHeaders 0x1e0fffff).mapBlockIndex.lookup
      ((mainSecondHeader 0x1e0fffff).getHash toyCrypto.toHashes)).map CBlockIndex.nHeight =
        some 2 := by
    decide +kernel
  obtain ⟨pindex, hlookup, hheight⟩ := map_eq_some_iff.mp hfound
  have hint : IntHeight pindex := by
    unfold IntHeight
    omega
  have hsane : ∀ header ∈ [mainFirstHeader 0x1e0fffff, mainSecondHeader 0x1e0fffff],
      SaneTarget header.nBits := by
    decide +kernel
  exact ⟨hgenesis, mainStart_workBounded, pindex, hlookup,
    headerRun_faithfulWork hgenesis mainStart_workBounded (.headers _ .refl hsane) _ pindex hlookup
      (by decide +kernel) hint⟩

/-- Two headers with the target 1 are accepted too, and the second has less work than the first. -/
theorem mainTwoHeaders_work_wraps :
    ∃ pindex pindexPrev,
      (mainTwoHeaders 0x01010000).mapBlockIndex.lookup
        ((mainSecondHeader 0x01010000).getHash toyCrypto.toHashes) = some pindex ∧
      pindex.pprev = some ((mainFirstHeader 0x01010000).getHash toyCrypto.toHashes) ∧
      (mainTwoHeaders 0x01010000).mapBlockIndex.lookup
        ((mainFirstHeader 0x01010000).getHash toyCrypto.toHashes) = some pindexPrev ∧
      pindex.nChainWork.toNat < pindexPrev.nChainWork.toNat ∧
      ¬FaithfulWork (mainTwoHeaders 0x01010000).mapBlockIndex pindex := by
  have hsecond : ((mainTwoHeaders 0x01010000).mapBlockIndex.lookup
      ((mainSecondHeader 0x01010000).getHash toyCrypto.toHashes)).map
        (fun pindex => (pindex.pprev, pindex.nChainWork)) =
      some (some ((mainFirstHeader 0x01010000).getHash toyCrypto.toHashes),
        getBlockProof 0x1e0fffff) := by
    decide +kernel
  have hfirst : ((mainTwoHeaders 0x01010000).mapBlockIndex.lookup
      ((mainFirstHeader 0x01010000).getHash toyCrypto.toHashes)).map CBlockIndex.nChainWork =
      some (getBlockProof 0x1e0fffff + 2 ^ 255) := by
    decide +kernel
  obtain ⟨pindex, hlookup, heq⟩ := map_eq_some_iff.mp hsecond
  obtain ⟨pindexPrev, hlookupPrev, hworkPrev⟩ := map_eq_some_iff.mp hfirst
  obtain ⟨hpprev, hwork⟩ := Prod.mk.inj heq
  have hlt : pindex.nChainWork.toNat < pindexPrev.nChainWork.toNat := by
    rw [hwork, hworkPrev]
    decide +kernel
  refine ⟨pindex, pindexPrev, hlookup, hpprev, hlookupPrev, hlt, ?_⟩
  rintro ⟨hashPrev, pindexPrev', hpprev', hlookup', hsum⟩
  obtain rfl : _ = hashPrev := some.inj (hpprev.symm.trans hpprev')
  obtain rfl : pindexPrev = pindexPrev' := some.inj (hlookupPrev.symm.trans hlookup')
  omega

end Jumpcoin
