import Jumpcoin.Script.Checker
import Jumpcoin.Script.Execution
import Jumpcoin.Validation.Accepted

/-!
# Time locks

What a lock time operation of a script says about the block in which the output is spent. The
operation asks the transaction (`CheckLockTime`, `CheckSequence`), and the block asks that the locks
of its transactions have passed: `ContextualCheckBlock` for lock times, `ConnectBlock` for sequence
numbers.

The operations have to be switched on. `CHECKSEQUENCEVERIFY` is, with the V3.1 rules, but
`CHECKLOCKTIMEVERIFY` comes with the V3 rules. On the test network the V3.1 switch lies before the
V3 switch.
-/

namespace Jumpcoin

open List Option

open Codec (Bytes)
open Check CValidationState

/-! ## Scripts that are run -/

def Crypto.interpreting (crypto : Crypto) (lib : ScriptLib) : Crypto :=
  { crypto with verifyScript := verifyInput lib crypto.toHashes crypto.verifyPubKey }

def Config.interpreting (config : Config) (lib : ScriptLib) : Config :=
  { config with crypto := config.crypto.interpreting lib }

variable {txin : CTxIn} {lib : ScriptLib}

/-- A check passes if the interpreter accepts the script of its input. -/
lemma CScriptCheck.error_interpreting {crypto : Crypto} {check : CScriptCheck}
    (hin : check.txTo.vin[check.nIn]? = some txin) :
    check.error (crypto.interpreting lib) = none ↔
      acceptsScript lib check.nFlags
        (transactionSignatureChecker crypto.toHashes crypto.verifyPubKey check.txTo check.nIn)
        txin.scriptSig check.scriptPubKey = true :=
  verifyInput_eq_none hin

/-- The coins after transactions of a block of a given height. -/
def CCoinsViewCache.updateAll (hashes : Hashes) (nHeight : Nat) :
    List CTransaction → CCoinsViewCache → Option CCoinsViewCache
  | [], view => some view
  | tx :: rest, view => do
    let (_, view') ← view.updateCoins hashes tx nHeight
    updateAll hashes nHeight rest view'

/-- `ConnectBlock` verifies an input: it belongs to a transaction other than the coinbase, and the
output is among the coins that the transactions before it have left. -/
structure VerifiesInput (config : Config) (block : CBlock) (nHeight : Nat) (view : CCoinsViewCache)
    (tx : CTransaction) (nIn : Nat) (txin : CTxIn) (coins : CCoins) (txout : CTxOut) : Prop where
  notGenesis : block.getHash config.hashes ≠ config.params.hashGenesisBlock
  notCoinBase : tx.isCoinBase = false
  input : tx.vin[nIn]? = some txin
  spends : ∃ before after view', block.vtx = before ++ tx :: after ∧
    view.updateAll config.hashes nHeight before = some view' ∧
    view'.accessCoins txin.prevout.hash = some coins
  output : coins.vout[txin.prevout.n.toNat]? = some txout

variable {tx : CTransaction} {view : CCoinsViewCache} {block : CBlock} {config : Config}
  {coins : CCoins} {txout : CTxOut} {nIn : Nat}

lemma VerifiesInput.tx_mem {nHeight : Nat}
    (h : VerifiesInput config block nHeight view tx nIn txin coins txout) : tx ∈ block.vtx := by
  obtain ⟨before, after, _, hvtx, -⟩ := h.spends
  simp [hvtx]

/-! ## Locks that have passed -/

/-- A lock time has passed for a block of a height, whose parent has a past time limit. -/
def LockTimePassed (nHeight nPastTime t : Int) : Prop :=
  t < if t < LOCKTIME_THRESHOLD then nHeight else nPastTime

/-- A relative lock time has passed for a block: the coin is deep enough, or old enough by past time
limits. -/
def SequencePassed (params : Params) (pindex : CBlockIndex) (pprev : List CBlockIndex)
    (nCoinHeight : Int) (nSequence : Nat) : Prop :=
  if nSequence.testBit 22 then
    ∃ nCoinTime nPastTime,
      getPastTimeLimit params (getAncestorPath (pindex :: pprev) (max (nCoinHeight - 1) 0)) =
        some nCoinTime ∧
      getPastTimeLimit params pprev = some nPastTime ∧
      nCoinTime + (nSequence % 2 ^ 16 * 512 : Nat) ≤ nPastTime
  else nCoinHeight + (nSequence % 2 ^ 16 : Nat) ≤ pindex.nHeight

/-- The locks that the script of an input executes have passed. -/
structure LocksPassed (config : Config) (lib : ScriptLib) (block : CBlock) (pindex : CBlockIndex)
    (pprev : List CBlockIndex) (tx : CTransaction) (nIn : Nat) (txin : CTxIn) (coins : CCoins)
    (txout : CTxOut) : Prop where
  lockTime : ∀ t, 0 < t →
    Executes lib (blockScriptFlags config.params block.getBlockTime)
      (transactionSignatureChecker config.hashes config.crypto.verifyPubKey tx nIn)
      txin.scriptSig txout.scriptPubKey OP_CHECKLOCKTIMEVERIFY t →
    ∃ nPastTime, getPastTimeLimit config.params pprev = some nPastTime ∧
      LockTimePassed pindex.nHeight nPastTime t
  sequence : ∀ n : Int, n.toNat.testBit 31 = false →
    Executes lib (blockScriptFlags config.params block.getBlockTime)
      (transactionSignatureChecker config.hashes config.crypto.verifyPubKey tx nIn)
      txin.scriptSig txout.scriptPubKey OP_CHECKSEQUENCEVERIFY n →
    SequencePassed config.params pindex pprev coins.nHeight.toInt n.toNat

/-- Blocks of a given time respect the time locks of the outputs they spend. -/
def TimeLocksSoundAt (params : Params) (nTime : UInt32) : Prop :=
  ∀ (config : Config) (lib : ScriptLib) (chain : ChainState) (disk : Disk) (block : CBlock)
    (pindex : CBlockIndex) (pprev : List CBlockIndex) (view : CCoinsViewCache) (fJustCheck : Bool)
    (state state' : CValidationState),
    config.params = params → block.nTime = nTime → pindex.nHeight = nextHeight pprev →
    scriptChecksNeeded config chain pindex = true →
    (contextualCheckBlock params block pprev state).1.isReturned = true →
    (connectBlock (config.interpreting lib) chain disk block pindex pprev view fJustCheck
      state').1.isReturned = true →
    ∀ tx nIn txin coins txout,
      VerifiesInput config block pindex.nHeight view tx nIn txin coins txout →
        LocksPassed config lib block pindex pprev tx nIn txin coins txout

/-! ## Sequence locks -/

variable {params : Params} {path : List CBlockIndex} {nCoinHeight : Int} {lock lock' : Int × Int}

/-- The lock of a transaction is not below that of the input. -/
def LockedBy (params : Params) (path : List CBlockIndex) (txin : CTxIn) (nCoinHeight : Int)
    (lock : Int × Int) : Prop :=
  if txin.nSequence.toNat.testBit 22 then
    ∃ nCoinTime, getPastTimeLimit params (getAncestorPath path (max (nCoinHeight - 1) 0)) =
        some nCoinTime ∧
      nCoinTime + (txin.nSequence.toNat % 2 ^ 16 * 512 : Nat) - 1 ≤ lock.2
  else nCoinHeight + (txin.nSequence.toNat % 2 ^ 16 : Nat) - 1 ≤ lock.1

lemma sequenceLock_ge (h : sequenceLock params path lock txin nCoinHeight = some lock') :
    lock.1 ≤ lock'.1 ∧ lock.2 ≤ lock'.2 ∧
      (txin.nSequence.toNat.testBit 31 = false → LockedBy params path txin nCoinHeight lock') := by
  unfold sequenceLock at h
  dsimp only at h
  split_ifs at h with hdisabled htype
  · obtain rfl := some.inj h
    exact ⟨le_rfl, le_rfl, fun henabled => by simp [hdisabled] at henabled⟩
  · obtain ⟨nCoinTime, htime, h⟩ := bind_eq_some_iff.mp h
    obtain rfl := some.inj h
    refine ⟨le_rfl, le_max_left _ _, fun _ => ?_⟩
    rw [LockedBy, if_pos htype]
    exact ⟨nCoinTime, htime, le_max_right _ _⟩
  · obtain rfl := some.inj h
    refine ⟨le_max_left _ _, le_rfl, fun _ => ?_⟩
    rw [LockedBy, if_neg htype]
    exact le_max_right _ _

lemma sequenceLocksLoop_ge {inputs : List (CTxIn × Int)}
    (h : sequenceLocksLoop params path lock inputs = some lock') :
    lock.1 ≤ lock'.1 ∧ lock.2 ≤ lock'.2 ∧ ∀ txin nCoinHeight, (txin, nCoinHeight) ∈ inputs →
      txin.nSequence.toNat.testBit 31 = false → LockedBy params path txin nCoinHeight lock' := by
  induction inputs generalizing lock with
  | nil =>
    obtain rfl := some.inj h
    simp
  | cons input inputs ih =>
    obtain ⟨txin, nCoinHeight⟩ := input
    obtain ⟨lock₁, hone, hrest⟩ := bind_eq_some_iff.mp h
    obtain ⟨hheight, htime, hlock⟩ := sequenceLock_ge hone
    obtain ⟨hheight', htime', hlocks⟩ := ih hrest
    refine ⟨hheight.trans hheight', htime.trans htime', fun txin' nCoinHeight' hmem henabled => ?_⟩
    rcases mem_cons.mp hmem with heq | hmem
    · obtain ⟨rfl, rfl⟩ := Prod.mk.inj heq
      have hlock := hlock henabled
      unfold LockedBy at hlock ⊢
      split_ifs at hlock ⊢
      · obtain ⟨nCoinTime, hcoin, hle⟩ := hlock
        exact ⟨nCoinTime, hcoin, hle.trans htime'⟩
      · exact hlock.trans hheight'
    · exact hlocks txin' nCoinHeight' hmem henabled

variable {pprev : List CBlockIndex} {pindex : CBlockIndex}

/-- A transaction that passes `SequenceLocks` has waited for each of its inputs. -/
lemma sequenceLocks_passed {prevHeights : List Int}
    (h : sequenceLocks params pindex pprev tx true prevHeights = some true)
    (hversion : 2 ≤ tx.nVersion.toUInt32) (hmem : (txin, nCoinHeight) ∈ tx.vin.zip prevHeights)
    (henabled : txin.nSequence.toNat.testBit 31 = false) :
    SequencePassed params pindex pprev nCoinHeight txin.nSequence.toNat := by
  obtain ⟨lockPair, hlocks, h⟩ := bind_eq_some_iff.mp h
  obtain ⟨nPastTime, hpast, h⟩ := bind_eq_some_iff.mp h
  simp only [calculateSequenceLocks, hversion, and_self, if_true] at hlocks
  obtain ⟨-, -, hall⟩ := sequenceLocksLoop_ge hlocks
  have hlock := hall txin nCoinHeight hmem henabled
  have hlater : lockPair.1 < pindex.nHeight ∧ lockPair.2 < nPastTime := by simpa using h
  unfold LockedBy at hlock
  unfold SequencePassed
  split_ifs at hlock ⊢
  · obtain ⟨nCoinTime, hcoin, hle⟩ := hlock
    exact ⟨nCoinTime, nPastTime, hcoin, hpast, Int.le_of_sub_one_lt (hle.trans_lt hlater.2)⟩
  · exact Int.le_of_sub_one_lt (hlock.trans_lt hlater.1)

/-- A shorter relative lock time of the same kind has passed too. -/
lemma SequencePassed.mono {n n' : Nat} (h : SequencePassed params pindex pprev nCoinHeight n')
    (htype : n'.testBit 22 = n.testBit 22) (hle : n % 2 ^ 16 ≤ n' % 2 ^ 16) :
    SequencePassed params pindex pprev nCoinHeight n := by
  unfold SequencePassed at h ⊢
  rw [htype] at h
  split_ifs at h ⊢
  · obtain ⟨nCoinTime, nPastTime, hcoin, hpast, hpassed⟩ := h
    have hseconds : n % 2 ^ 16 * 512 ≤ n' % 2 ^ 16 * 512 := Nat.mul_le_mul_right 512 hle
    exact ⟨nCoinTime, nPastTime, hcoin, hpast,
      (Int.add_le_add_left (Int.ofNat_le.mpr hseconds) nCoinTime).trans hpassed⟩
  · exact (Int.add_le_add_left (Int.ofNat_le.mpr hle) nCoinHeight).trans h

/-! ## The inputs of a connected block -/

lemma getElem?_of_mapM {α β : Type} {f : α → Option β} {l : List α} {l' : List β}
    (h : l.mapM f = some l') {i : Nat} {a : α} (ha : l[i]? = some a) :
    ∃ b, f a = some b ∧ l'[i]? = some b := by
  obtain ⟨hi, rfl⟩ := List.getElem?_eq_some_iff.mp ha
  obtain ⟨hlength, hget⟩ := forall₂_iff_get.mp (Loop.forall₂_of_mapM h)
  exact ⟨l'[i], hget i hi (hlength ▸ hi), getElem?_eq_getElem _⟩

variable {i : Nat}

lemma mem_scriptChecks {inputs : CCoinsViewCache} {flags k : Nat} {vin : List CTxIn}
    {checks : List CScriptCheck} (h : scriptChecks inputs tx flags k vin = some checks)
    (hin : vin[nIn]? = some txin) (hcoins : inputs.accessCoins txin.prevout.hash = some coins)
    (hout : coins.vout[txin.prevout.n.toNat]? = some txout) :
    ⟨txout.scriptPubKey, tx, k + nIn, flags⟩ ∈ checks := by
  induction vin generalizing k nIn checks with
  | nil => simp at hin
  | cons first vin ih =>
    obtain ⟨coins', hcoins', h⟩ := bind_eq_some_iff.mp h
    obtain ⟨txout', hout', h⟩ := bind_eq_some_iff.mp h
    obtain ⟨rest, hrest, h⟩ := bind_eq_some_iff.mp h
    obtain rfl := some.inj h
    cases nIn with
    | zero =>
      obtain rfl := some.inj hin
      obtain rfl := some.inj (hcoins'.symm.trans hcoins)
      obtain rfl := some.inj (hout'.symm.trans hout)
      exact mem_cons_self
    | succ nIn =>
      have hmem := ih hrest hin
      rw [Nat.add_right_comm] at hmem
      exact mem_cons_of_mem _ hmem

variable {state state' : CValidationState} {s : ConnectLoop} {ctx : ConnectContext}
  {chain : ChainState} {fJustCheck : Bool} {s' : ConnectLoop} {r : Connected} {disk : Disk}

/-- What the iteration for a transaction other than the coinbase establishes if scripts are run: its
sequence locks have passed, and so have the scripts that were not put off. -/
lemma connectTx_verifies (hcb : tx.isCoinBase = false) (hscripts : ctx.fScriptChecks = true)
    (h : ctx.connectTx i tx s state = (.returned s', state'))
    (hpass : ScriptsPass ctx.config.crypto s'.vChecks) :
    (∃ prevHeights, (tx.vin.mapM fun txin =>
        (s.view.accessCoins txin.prevout.hash).map fun coins => coins.nHeight.toInt) =
          some prevHeights ∧
      sequenceLocks ctx.config.params ctx.pindex ctx.pprev tx
        (ctx.config.params.isProtocolV3_1 ctx.block.getBlockTime) prevHeights = some true) ∧
      ∃ checks, scriptChecks s.view tx ctx.flags 0 tx.vin = some checks ∧
        ScriptsPass ctx.config.crypto checks := by
  simp only [ConnectContext.connectTx, bind_eq_returned, require_eq_returned, ensure_eq_returned,
    pure_eq_returned, Prod.exists] at h
  obtain ⟨_, _, havailable, _, _, -, _, _, -, _, _, _, -, checks, _, hinputs, _, _, _, -, rfl,
    -⟩ := h
  constructor
  · simp only [ConnectContext.checkInputsAvailable, hcb, Bool.false_eq_true, if_false,
      bind_eq_returned, require_eq_returned, ensure_eq_returned] at havailable
    obtain ⟨_, _, -, prevHeights, _, ⟨hheights, rfl⟩, final, _, ⟨hlocks, rfl⟩, rfl, -⟩ := havailable
    exact ⟨prevHeights, hheights, hlocks⟩
  · simp only [checkInputs, hcb, Bool.false_eq_true, if_false, bind_eq_returned,
      require_eq_returned] at hinputs
    obtain ⟨_, _, -, _, _, -, hchecks⟩ := hinputs
    have hpass' : ScriptsPass ctx.config.crypto checks :=
      fun check hmem => hpass check (mem_append_right _ hmem)
    exact (checkInputScripts_pass.mp ⟨checks, hchecks, hpass'⟩).2 hscripts

/-- The iteration for a transaction in the run of the loop. -/
lemma connectTxs_split {before after : List CTransaction}
    (h : ctx.connectTxs i (before ++ tx :: after) s state = (.returned s', state')) :
    ∃ s₁ s₂ state₁ state₂,
      s.view.updateAll ctx.config.hashes ctx.pindex.nHeight before = some s₁.view ∧
      ctx.connectTx (i + before.length) tx s₁ state₁ = (.returned s₂, state₂) ∧
      s₂.vChecks ⊆ s'.vChecks := by
  induction before generalizing i s state with
  | nil =>
    obtain ⟨s₂, state₂, htx, hrest⟩ := bind_eq_returned.mp h
    exact ⟨s, s₂, state, state₂, rfl, htx, connectTxs_vChecks hrest⟩
  | cons first before ih =>
    obtain ⟨s₀, _, hfirst, hrest⟩ := bind_eq_returned.mp h
    obtain ⟨_, hupdate, -⟩ := (connectTx_returned hfirst).update
    obtain ⟨s₁, s₂, state₁, state₂, hviews, htx, hsubset⟩ := ih hrest
    refine ⟨s₁, s₂, state₁, state₂, ?_, ?_, hsubset⟩
    · simp only [CCoinsViewCache.updateAll, hupdate]
      exact hviews
    · rw [length_cons, ← Nat.add_assoc, Nat.add_right_comm]
      exact htx

/-- The loop that a successful `ConnectBlock` has run, with all queued scripts passed. -/
lemma connectBlock_connectTxs
    (h : connectBlock config chain disk block pindex pprev view fJustCheck state =
      (.returned r, state')) (hgenesis : block.getHash config.hashes ≠ config.params.hashGenesisBlock) :
    ∃ fChecked s state₁ state₂,
      ConnectContext.connectTxs ⟨config, chain, { block with fChecked }, pindex, pprev,
        scriptChecksNeeded config chain pindex⟩ 0 block.vtx ⟨view, [], 0, 0, 0, []⟩ state₁ =
          (.returned s, state₂) ∧
      ScriptsPass config.crypto s.vChecks := by
  obtain ⟨fChecked, _, -, h⟩ := connectBlock_cases h
  rw [if_neg hgenesis] at h
  simp only [connectTransactions, bind_eq_returned, require_eq_returned, ensure_eq_returned] at h
  obtain ⟨_, _, -, _, _, -, _, _, -, _, _, -, s, _, hrun, _, _, -, _, _, -, _, _, ⟨hpass, -⟩,
    -⟩ := h
  exact ⟨fChecked, s, _, _, hrun, scriptsPass_iff.mp hpass⟩

/-- An input that `ConnectBlock` has verified: the interpreter accepts its script, and the
transaction has passed `SequenceLocks` with the height of the coin it spends. -/
lemma connectBlock_verifies (hscripts : scriptChecksNeeded config chain pindex = true)
    (h : connectBlock (config.interpreting lib) chain disk block pindex pprev view fJustCheck state
      = (.returned r, state'))
    (hverifies : VerifiesInput config block pindex.nHeight view tx nIn txin coins txout) :
    acceptsScript lib (blockScriptFlags config.params block.getBlockTime)
        (transactionSignatureChecker config.hashes config.crypto.verifyPubKey tx nIn)
        txin.scriptSig txout.scriptPubKey = true ∧
      ∃ prevHeights, (txin, coins.nHeight.toInt) ∈ tx.vin.zip prevHeights ∧
        sequenceLocks config.params pindex pprev tx
          (config.params.isProtocolV3_1 block.getBlockTime) prevHeights = some true := by
  obtain ⟨before, after, view', hvtx, hupdate, hcoins⟩ := hverifies.spends
  obtain ⟨fChecked, s, _, _, hrun, hpass⟩ := connectBlock_connectTxs h hverifies.notGenesis
  rw [hvtx] at hrun
  obtain ⟨s₁, s₂, _, _, hviews, htx, hsubset⟩ := connectTxs_split hrun
  obtain rfl : view' = s₁.view := some.inj (hupdate.symm.trans hviews)
  obtain ⟨⟨prevHeights, hheights, hlocks⟩, checks, hchecks, hpassed⟩ :=
    connectTx_verifies hverifies.notCoinBase hscripts htx fun check hmem =>
      hpass check (hsubset hmem)
  constructor
  · have hmem := mem_scriptChecks hchecks hverifies.input hcoins hverifies.output
    rw [Nat.zero_add] at hmem
    exact (CScriptCheck.error_interpreting hverifies.input).mp (hpassed _ hmem)
  · obtain ⟨nCoinHeight, hheight, hget⟩ := getElem?_of_mapM hheights hverifies.input
    obtain rfl : coins.nHeight.toInt = nCoinHeight := by simpa [hcoins] using hheight
    refine ⟨prevHeights, ?_, hlocks⟩
    exact mem_of_getElem? (getElem?_zip_eq_some.mpr ⟨hverifies.input, hget⟩)

/-! ## Lock times -/

lemma hasFlag_blockScriptFlags (params : Params) (nBlockTime : Int) :
    hasFlag (blockScriptFlags params nBlockTime) SCRIPT_VERIFY_CHECKLOCKTIMEVERIFY =
        params.isProtocolV3 nBlockTime ∧
      hasFlag (blockScriptFlags params nBlockTime) SCRIPT_VERIFY_CHECKSEQUENCEVERIFY =
        params.isProtocolV3_1 nBlockTime := by
  unfold blockScriptFlags
  cases params.isProtocolV3 nBlockTime <;> cases params.isProtocolV3_1 nBlockTime <;>
    exact ⟨rfl, rfl⟩

lemma contextualCheckBlock_final {u : Unit} (hv3 : params.isProtocolV3_1 block.getBlockTime = true)
    (h : contextualCheckBlock params block path state = (.returned u, state')) :
    ∃ nPastTime, getPastTimeLimit params path = some nPastTime ∧
      ∀ tx ∈ block.vtx, isFinalTx tx (nextHeight path) nPastTime = true := by
  simp only [contextualCheckBlock, hv3, if_true, bind_eq_returned, require_eq_returned,
    ensure_eq_returned] at h
  obtain ⟨nPastTime, _, ⟨hpast, -⟩, _, _, ⟨hfinal, -⟩, -⟩ := h
  exact ⟨nPastTime, hpast, all_eq_true.mp hfinal⟩

/-- The lock time of a final transaction has passed if one of its inputs does not opt out. -/
lemma isFinalTx_passed {nHeight nPastTime t : Int} (h : isFinalTx tx nHeight nPastTime = true)
    (hmem : txin ∈ tx.vin) (hseq : txin.nSequence ≠ 0xffffffff) (ht : 0 < t)
    (hle : t ≤ tx.nLockTime.toNat)
    (hkind : t < LOCKTIME_THRESHOLD ↔ (tx.nLockTime.toNat : Int) < LOCKTIME_THRESHOLD) :
    LockTimePassed nHeight nPastTime t := by
  have hnonzero : tx.nLockTime ≠ 0 := by
    rintro hzero
    simp [hzero] at hle
    omega
  have hopen : (tx.vin.all fun txin => txin.nSequence == 0xffffffff) = false :=
    all_eq_false.mpr ⟨txin, hmem, by simpa using hseq⟩
  simp only [isFinalTx, hopen, Bool.or_false, Bool.or_eq_true, beq_iff_eq, hnonzero, false_or,
    decide_eq_true_eq] at h
  unfold LockTimePassed
  split_ifs at h ⊢ <;> omega

variable {nTime : UInt32} {nBlockTime : Int}

/-- With both sets of rules the time locks are respected. -/
lemma timeLocksSoundAt_of_isProtocolV3 (hv3 : params.isProtocolV3 nTime.toNat = true)
    (hv31 : params.isProtocolV3_1 nTime.toNat = true) : TimeLocksSoundAt params nTime := by
  rintro config lib chain disk block pindex pprev view fJustCheck state state' rfl rfl hheight
    hscripts hcontext hconnect tx nIn txin coins txout hverifies
  obtain ⟨_, _, hcontext⟩ := exists_returned hcontext
  obtain ⟨_, _, hconnect⟩ := exists_returned hconnect
  obtain ⟨haccepts, prevHeights, hmem, hlocks⟩ := connectBlock_verifies hscripts hconnect hverifies
  obtain ⟨nPastTime, hpast, hfinal⟩ := contextualCheckBlock_final hv31 hcontext
  constructor
  · intro t ht hexecutes
    have hgranted := hexecutes.checkLockTime haccepts
      ((hasFlag_blockScriptFlags _ _).1.trans hv3)
    obtain ⟨hkind, hle, hseq⟩ :=
      TransactionSignatureChecker.checkLockTime_granted hverifies.input hgranted
    refine ⟨nPastTime, hpast, ?_⟩
    rw [hheight]
    exact isFinalTx_passed (hfinal tx hverifies.tx_mem) (mem_of_getElem? hverifies.input) hseq ht
      hle hkind
  · intro n henabled hexecutes
    obtain ⟨hn, hgranted⟩ := hexecutes.checkSequence haccepts
      ((hasFlag_blockScriptFlags _ _).2.trans hv31) henabled
    obtain ⟨hversion, henabled', htype, hle⟩ :=
      TransactionSignatureChecker.checkSequence_granted hverifies.input hn hgranted
    rw [show config.params.isProtocolV3_1 block.getBlockTime = true from hv31] at hlocks
    exact (sequenceLocks_passed hlocks hversion hmem henabled').mono htype hle

/-! ## Without the V3 rules

A block for arbitrary parameters and an arbitrary time that spends a locked output too early.
-/

def lockedCoinBase : CTransaction := { toyCoinBase with nTime := 0 }

/-- The spend of an output that is locked with `2 CHECKLOCKTIMEVERIFY`. -/
def lockedSpend : CTransaction := { toySpend with nTime := 0 }

def lockedTxs : List CTransaction := [lockedCoinBase, lockedSpend]

def lockedView : CCoinsViewCache where
  cacheCoins := Finmap.singleton 7 ⟨false, false, [⟨100000, [0x52, 0xb1]⟩], 1, 1, 0⟩
  hashBlock := 101

/-- A block of height 2 with a given time, for a network in which it has the right difficulty. -/
def lockedBlock (params : Params) (nTime : UInt32) : CBlock where
  nVersion := 7
  hashPrevBlock := 101
  hashMerkleRoot := 0
  nTime
  nBits := getNextTargetRequired params toyPath false
  nNonce := 0
  vtx := lockedTxs
  vchBlockSig := []
  fChecked := false

def lockedConfig (params : Params) (hash : Uint256) : Config :=
  { toyConfig with
    crypto := { toyCrypto with hash256 := fun _ => hash }
    chainparams := ⟨params, []⟩ }

lemma getPastTimeLimit_toyPath (params : Params) :
    getPastTimeLimit params toyPath = some 1700000000 := by
  unfold getPastTimeLimit toyPath
  dsimp only
  split_ifs <;> rfl

lemma checkBlockTransactions_timeless {crypto : Crypto}
    (hpos : 0 ≤ nBlockTime) {vtx : List CTransaction}
    (h : ∀ tx ∈ vtx, tx.nTime = 0 ∧
      checkTransaction crypto.words tx state = (.returned (), state)) :
    checkBlockTransactions crypto nBlockTime vtx state = (.returned (), state) := by
  induction vtx with
  | nil => rfl
  | cons tx vtx ih =>
    obtain ⟨htime, htx⟩ := h tx mem_cons_self
    unfold checkBlockTransactions
    rw [bind_returned (onRefused_eq_returned.mpr htx),
      bind_returned (ensure_returned (by simpa [htime] using hpos) state)]
    exact ih fun tx' htx' => h tx' (mem_cons_of_mem _ htx')

lemma lockedBlock_checked (params : Params) (nTime : UInt32) {crypto : Crypto}
    (hwords : crypto.words = .wrapping) (nHeight : Int) (state : CValidationState) :
    checkBlock crypto params nHeight (lockedBlock params nTime) false false false state =
      (.returned (lockedBlock params nTime), state) := by
  have hdrift : ∀ t, t ≤ futureDrift params nHeight t := by
    intro t
    unfold futureDrift
    split_ifs <;> omega
  have hshape : checkBlockShape params nHeight (lockedBlock params nTime) state =
      (.returned (), state) := by
    change (do
      ensure true _
      ensure true _
      ensure (decide (_ ≤ futureDrift params nHeight (lockedBlock params nTime).getBlockTime)) _
      pure () : Validate Unit) state = _
    rw [bind_returned (ensure_returned rfl state), bind_returned (ensure_returned rfl state),
      bind_returned (ensure_returned (decide_eq_true (hdrift _)) state)]
    rfl
  have hheader : checkBlockHeader crypto.toHashes params (lockedBlock params nTime).toCBlockHeader
      (false && (lockedBlock params nTime).isProofOfWork) state = (.returned (), state) := by
    unfold checkBlockHeader
    rfl
  have hsize : checkBlockSize (lockedBlock params nTime) state = (.returned (), state) :=
    ensure_returned (by rfl) state
  have htxs : checkBlockTransactions crypto (lockedBlock params nTime).getBlockTime
      (lockedBlock params nTime).vtx state = (.returned (), state) := by
    refine checkBlockTransactions_timeless (Int.natCast_nonneg _) fun tx htx => ?_
    rw [hwords]
    rcases mem_pair.mp htx with rfl | rfl <;> exact ⟨rfl, rfl⟩
  have hsigops : checkBlockSigOps (lockedBlock params nTime).vtx state = (.returned (), state) :=
    ensure_returned (by rfl) state
  unfold checkBlock
  rw [if_neg (by simp [lockedBlock]), bind_returned hheader]
  rw [bind_returned (show checkBlockMerkleRoot _ _ false state = (.returned (), state) from rfl)]
  rw [bind_returned hsize, bind_returned hshape, bind_returned (ensure_returned (by rfl) state),
    bind_returned htxs, bind_returned hsigops]
  rfl

/-- The scripts of the block are run without `CHECKLOCKTIMEVERIFY`. -/
def unlockedFlags : Nat :=
  SCRIPT_VERIFY_P2SH ||| SCRIPT_VERIFY_DERSIG ||| SCRIPT_VERIFY_DERKEY ||| SCRIPT_VERIFY_LOW_S |||
    SCRIPT_VERIFY_CHECKSEQUENCEVERIFY

lemma blockScriptFlags_unlocked (hv3 : params.isProtocolV3 nBlockTime = false)
    (hv31 : params.isProtocolV3_1 nBlockTime = true) :
    blockScriptFlags params nBlockTime = unlockedFlags := by
  simp [blockScriptFlags, hv3, hv31, unlockedFlags]

lemma lockedSpend_fees (params : Params) (state : CValidationState) :
    checkTxFees .wrapping params lockedSpend 0 100000 state = (.returned (), state) := by
  unfold checkTxFees
  refine ensure_returned ?_ state
  cases hv31 : params.isProtocolV3_1 0 with
  | false => rfl
  | true =>
    have hfee : getMinFee params lockedSpend 0 = MIN_TX_FEE := by
      simp only [getMinFee, show params.isProtocolV3_1 (0 : UInt32).toNat = true from hv31, if_true]
      rfl
    change (!decide (99000 < getMinFee params lockedSpend 0)) = true
    rw [hfee]
    rfl

/-- The coins after the coinbase, if the hash of every transaction is 1 or 2. -/
def lockedLoop (hash : Uint256) : ConnectLoop :=
  ⟨lockedView.setCoins hash (CCoins.fromTx lockedCoinBase 2), [], 0, 0, 0, []⟩

def lockedContext (params : Params) (hash : Uint256) (lib : ScriptLib) (nTime : UInt32) :
    ConnectContext :=
  ⟨(lockedConfig params hash).interpreting lib, toyChain, lockedBlock params nTime, toyNextIndex,
    toyPath, true⟩

variable {hash : Uint256}

lemma lockedLoop_haveInputs (hhash : hash = 1 ∨ hash = 2) :
    (lockedLoop hash).view.haveInputs lockedSpend = true := by
  rcases hhash with rfl | rfl <;> rfl

lemma lockedSpend_available (params : Params) (hhash : hash = 1 ∨ hash = 2) (lib : ScriptLib)
    (nTime : UInt32) (state : CValidationState) :
    (lockedContext params hash lib nTime).checkInputsAvailable (lockedLoop hash).view lockedSpend
      state = (.returned (), state) := by
  have hlocks : ∀ fVerifySequence,
      sequenceLocks params toyNextIndex toyPath lockedSpend fVerifySequence [1] = some true := by
    intro fVerifySequence
    simp only [sequenceLocks, getPastTimeLimit_toyPath]
    rfl
  have hheights : (lockedSpend.vin.mapM fun txin =>
      ((lockedLoop hash).view.accessCoins txin.prevout.hash).map fun coins => coins.nHeight.toInt) =
        some [1] := by
    rcases hhash with rfl | rfl <;> rfl
  simp only [ConnectContext.checkInputsAvailable, show lockedSpend.isCoinBase = false from rfl,
    Bool.false_eq_true, if_false, bind_eq_returned, require_eq_returned, ensure_eq_returned]
  exact ⟨(), state, ⟨lockedLoop_haveInputs hhash, rfl⟩, [1], state, ⟨hheights, rfl⟩, true, state,
    ⟨hlocks _, rfl⟩, rfl, rfl⟩

lemma lockedBlock_reward (params : Params) (nTime : UInt32) (hash : Uint256) (lib : ScriptLib)
    (hfees : s.nFees = 99000) (state : CValidationState) :
    checkReward ((lockedConfig params hash).interpreting lib) (lockedBlock params nTime) s state =
      (.returned (), state) := by
  have hvalue : lockedCoinBase.getValueOut .wrapping = some 0 := rfl
  have hpow : (lockedBlock params nTime).isProofOfWork = true := rfl
  simp only [checkReward, hpow, if_true, bind_eq_returned, require_eq_returned]
  refine ⟨lockedCoinBase, state, ⟨rfl, rfl⟩, 0, state, ⟨hvalue, rfl⟩, ensure_returned ?_ state⟩
  change (!decide (s.nFees + getProofOfWorkSubsidy < 0)) = true
  rw [hfees]
  decide

lemma lockedBlock_bip30 (params : Params) (hhash : hash = 1 ∨ hash = 2) (lib : ScriptLib)
    (nTime : UInt32) (state : CValidationState) :
    checkBIP30 ((lockedConfig params hash).interpreting lib) (lockedBlock params nTime) toyPath
      lockedView state = (.returned (), state) := by
  refine ensure_returned ?_ state
  have hnone : ((lockedBlock params nTime).vtx.all fun tx =>
      !overwrites ((lockedConfig params hash).interpreting lib).hashes lockedView tx) = true := by
    rcases hhash with rfl | rfl <;> rfl
  rw [hnone, Bool.or_true]

section Unlocked

variable (hhash : hash = 1 ∨ hash = 2) (lib : ScriptLib)
  (hv3 : params.isProtocolV3 nTime.toNat = false)
  (hv31 : params.isProtocolV3_1 nTime.toNat = true) (state : CValidationState)

include hhash hv3 hv31

lemma lockedSpend_inputs :
    checkInputs ((lockedConfig params hash).interpreting lib) toyChain lockedSpend
      (lockedLoop hash).view true (blockScriptFlags params nTime.toNat) state =
        (.returned [], state) := by
  have hloop : checkTxInputsLoop .wrapping params (lockedLoop hash).view 2 0 0
      lockedSpend.vin state = (.returned 100000, state) := by
    rcases hhash with rfl | rfl <;> rfl
  have hinputs : checkTxInputs .wrapping params toyChain.adjustedTime lockedSpend
      (lockedLoop hash).view 2 state = (.returned (), state) :=
    checkTxInputs_eq_returned.mpr
      ⟨lockedLoop_haveInputs hhash, 100000, hloop, lockedSpend_fees params state⟩
  have hchecks : scriptChecks (lockedLoop hash).view lockedSpend unlockedFlags 0 lockedSpend.vin =
      some [⟨[0x52, 0xb1], lockedSpend, 0, unlockedFlags⟩] := by
    rcases hhash with rfl | rfl <;> rfl
  have hpass : ScriptsPass ((lockedConfig params hash).crypto.interpreting lib)
      [⟨[0x52, 0xb1], lockedSpend, 0, unlockedFlags⟩] := by
    intro check hmem
    obtain rfl := mem_singleton.mp hmem
    have hin : lockedSpend.vin[0]? = some ⟨⟨7, 0⟩, [], 0xffffffff⟩ := rfl
    exact (CScriptCheck.error_interpreting hin).mpr rfl
  simp only [checkInputs, show lockedSpend.isCoinBase = false from rfl, Bool.false_eq_true,
    if_false, bind_eq_returned, require_eq_returned, blockScriptFlags_unlocked hv3 hv31,
    checkInputScripts, if_true]
  exact ⟨2, state, ⟨rfl, rfl⟩, (), state, hinputs, _, state, ⟨hchecks, rfl⟩,
    bind_eq_returned.mpr ⟨(), state, runScriptChecks_eq_returned.mpr ⟨hpass, rfl⟩, rfl⟩⟩

lemma lockedSpend_connected :
    ∃ s, (lockedContext params hash lib nTime).connectTx 1 lockedSpend (lockedLoop hash) state =
        (.returned s, state) ∧ s.vChecks = [] ∧ s.nFees = 99000 := by
  have hsigops : getTransactionSigOpCount lockedSpend (lockedLoop hash).view = some 0 := by
    rcases hhash with rfl | rfl <;> rfl
  have hfees : ConnectContext.countFees .wrapping (lockedLoop hash) lockedSpend state =
      (.returned (99000, 0), state) := by
    rcases hhash with rfl | rfl <;> rfl
  have hupdate : ∃ r, (lockedLoop hash).view.updateCoins (lockedConfig params hash).hashes
      lockedSpend 2 = some r := by
    rcases hhash with rfl | rfl <;> exact ⟨_, rfl⟩
  obtain ⟨⟨txundo, view⟩, hupdate⟩ := hupdate
  simp only [ConnectContext.connectTx, bind_eq_returned, require_eq_returned, ensure_eq_returned,
    pure_eq_returned, Prod.exists]
  exact ⟨_, ⟨(), state, lockedSpend_available params hhash lib nTime state, 0, state,
    ⟨hsigops, rfl⟩, (), state, ⟨rfl, rfl⟩, 99000, 0, state, hfees, [], state,
    lockedSpend_inputs hhash lib hv3 hv31 state, txundo, view, state, ⟨hupdate, rfl⟩, rfl, rfl⟩,
    rfl, rfl⟩

lemma lockedBlock_transactions :
    ∃ r, connectTransactions ((lockedConfig params hash).interpreting lib) toyChain .ok
      (lockedBlock params nTime) toyNextIndex toyPath lockedView true state =
        (.returned r, state) := by
  obtain ⟨s, hspend, hchecks, hfees⟩ := lockedSpend_connected hhash lib hv3 hv31 state
  have htxs : (lockedContext params hash lib nTime).connectTxs 0 lockedTxs
      ⟨lockedView, [], 0, 0, 0, []⟩ state = (.returned s, state) :=
    bind_eq_returned.mpr ⟨lockedLoop hash, state, rfl,
      bind_eq_returned.mpr ⟨_, state, hspend, rfl⟩⟩
  have hbits : ((lockedBlock params nTime).nBits ==
      getNextTargetRequired params toyPath (lockedBlock params nTime).isProofOfStake) = true := by
    exact beq_self_eq_true _
  have hpass : (s.vChecks.all fun check =>
      (check.error ((lockedConfig params hash).interpreting lib).crypto).isNone) = true := by
    rw [hchecks]
    rfl
  have hkernel : ∃ kernel, stakeKernel ((lockedConfig params hash).interpreting lib).hashes
      (lockedBlock params nTime) = some kernel := ⟨hash, rfl⟩
  obtain ⟨kernel, hkernel⟩ := hkernel
  simp only [connectTransactions, bind_eq_returned, require_eq_returned, ensure_eq_returned,
    if_true, pure_eq_returned]
  exact ⟨_, (), state, ⟨hbits, rfl⟩, (), state, rfl, _, state, ⟨rfl, rfl⟩, (), state,
    lockedBlock_bip30 params hhash lib nTime state, s, state, htxs, (), state,
    lockedBlock_reward params nTime hash lib hfees state, kernel, state, ⟨hkernel, rfl⟩, (), state,
    ⟨hpass, rfl⟩, rfl, rfl⟩

lemma lockedBlock_connected (hgenesis : hash ≠ params.hashGenesisBlock) :
    (connectBlock ((lockedConfig params hash).interpreting lib) toyChain .ok
      (lockedBlock params nTime) toyNextIndex toyPath lockedView true state).1.isReturned =
        true := by
  have hhash' : (lockedBlock params nTime).getHash
      ((lockedConfig params hash).interpreting lib).hashes ≠
        ((lockedConfig params hash).interpreting lib).params.hashGenesisBlock := hgenesis
  obtain ⟨r, htransactions⟩ := lockedBlock_transactions hhash lib hv3 hv31 state
  have hconnect : connectBlock ((lockedConfig params hash).interpreting lib) toyChain .ok
      (lockedBlock params nTime) toyNextIndex toyPath lockedView true state =
      (.returned r, state) := by
    refine bind_eq_returned.mpr ⟨_, state, lockedBlock_checked params nTime rfl _ state, ?_⟩
    refine bind_eq_returned.mpr ⟨(), state, demand_eq_returned.mpr ⟨rfl, rfl⟩, ?_⟩
    rw [if_neg hhash']
    exact htransactions
  rw [hconnect]
  rfl

end Unlocked

/-- An output script that pushes a number for `CHECKLOCKTIMEVERIFY` executes it. -/
lemma executes_of_push {checker : SignatureChecker} (push : CScript) (vch : Bytes) {t : Int}
    (hturn : Turn lib unlockedFlags checker (.start [] (push ++ [0xb1])) { Machine.start [] (push
      ++ [0xb1]) with pc := [0xb1], stack := [vch] }) (ht : CScriptNum.ofVch vch false 5 = some t) :
    Executes lib unlockedFlags checker [] (push ++ [0xb1]) OP_CHECKLOCKTIMEVERIFY t := by
  have hempty : evalScript lib unlockedFlags checker [] [] = (.returned (), .start [] []) := rfl
  exact ⟨[], _, _, .scriptPubKey hempty, .single hturn, rfl, ⟨[], [], rfl⟩, ⟨vch, [], rfl, ht⟩⟩

lemma lockedScript_executes (lib : ScriptLib) (checker : SignatureChecker) :
    Executes lib unlockedFlags checker [] [0x52, 0xb1] OP_CHECKLOCKTIMEVERIFY 2 :=
  executes_of_push [0x52] [2] ⟨by simp [Machine.start], rfl⟩ rfl

/-- After the V3.1 switch time locks are respected, if and only if the V3 rules are in force too. -/
theorem timeLocksSoundAt_iff (params : Params) (nTime : UInt32)
    (hv31 : params.isProtocolV3_1 nTime.toNat = true) :
    TimeLocksSoundAt params nTime ↔ params.isProtocolV3 nTime.toNat = true := by
  refine ⟨fun hsound => ?_, fun hv3 => timeLocksSoundAt_of_isProtocolV3 hv3 hv31⟩
  cases hv3 : params.isProtocolV3 nTime.toNat with
  | true => rfl
  | false =>
    obtain ⟨hash, hhash, hgenesis⟩ : ∃ hash : Uint256, (hash = 1 ∨ hash = 2) ∧
        hash ≠ params.hashGenesisBlock := by
      by_cases h : (1 : Uint256) = params.hashGenesisBlock
      · exact ⟨2, .inr rfl, by rw [← h]; decide⟩
      · exact ⟨1, .inl rfl, h⟩
    have hlocks := hsound (lockedConfig params hash) toyScriptLib toyChain .ok
      (lockedBlock params nTime) toyNextIndex toyPath lockedView true .init .init rfl rfl rfl rfl
      (by unfold contextualCheckBlock; rw [getPastTimeLimit_toyPath]; split_ifs <;> rfl)
      (lockedBlock_connected hhash _ hv3 hv31 _ hgenesis)
      lockedSpend 0 ⟨⟨7, 0⟩, [], 0xffffffff⟩ _ ⟨100000, [0x52, 0xb1]⟩
      ⟨hgenesis, rfl, rfl, ⟨[lockedCoinBase], [], _, rfl, rfl,
        by rcases hhash with rfl | rfl <;> rfl⟩, rfl⟩
    have hexecutes := lockedScript_executes toyScriptLib
      (transactionSignatureChecker (lockedConfig params hash).hashes
        (lockedConfig params hash).crypto.verifyPubKey lockedSpend 0)
    rw [← blockScriptFlags_unlocked hv3 hv31] at hexecutes
    obtain ⟨nPastTime, -, hpassed⟩ := hlocks.lockTime 2 (by decide) hexecutes
    exact absurd hpassed (by simp [LockTimePassed, LOCKTIME_THRESHOLD, toyNextIndex, toyIndex])

theorem testNet_timeLocksSound :
    testNetParams.consensus.isProtocolV3_1 1700001000 = true ∧
      TimeLocksSoundAt testNetParams.consensus 1700001000 :=
  ⟨by decide, (timeLocksSoundAt_iff testNetParams.consensus 1700001000 (by decide)).mpr (by decide)⟩

/-! ## The test network -/

def testNetConfig : Config := { toyConfig with chainparams := testNetParams }

def testNetGenesis : CBlockIndex :=
  { toyIndex testNetParams.consensus.hashGenesisBlock none 0 1696771811 with nChainWork := 0 }

def testNetChain : ChainState :=
  { toyChain with
    mapBlockIndex := Finmap.singleton testNetGenesis.hashBlock testNetGenesis
    chainActive := [testNetGenesis.hashBlock]
    pcoinsTip := ⟨∅, testNetGenesis.hashBlock⟩
    adjustedTime := 1696771812 }

/-- The coinbase of the first block, without a time of its own; it pays to
`500 CHECKLOCKTIMEVERIFY`. -/
def testNetCoinBase : CTransaction where
  nVersion := 2
  nTime := 0
  vin := [⟨⟨0, 0xffffffff⟩, [0x51, 0x00], 0xffffffff⟩]
  vout := [⟨getProofOfWorkSubsidy, [0x02, 0xf4, 0x01, 0xb1]⟩]
  nLockTime := 0

def testNetSpend : CTransaction where
  nVersion := 1
  nTime := 1000
  vin := [⟨⟨testNetCoinBase.getHash toyCrypto.toHashes, 0⟩, [], 0xffffffff⟩]
  vout := [⟨1000, [0x51]⟩]
  nLockTime := 0

def testNetBlock : CBlock :=
  { toyBlock [testNetCoinBase, testNetSpend] with
    hashPrevBlock := testNetGenesis.hashBlock
    nTime := 1696771812
    nBits := getNextTargetRequired testNetParams.consensus [testNetGenesis] false }

def testNetIndex : CBlockIndex :=
  { toyIndex 102 (some testNetGenesis.hashBlock) 1 1696771812 with
    nStatus := ⟨BLOCK_VALID_TRANSACTIONS, true, false, false, false, false⟩ }

/-- On the test network `CHECKLOCKTIMEVERIFY` is not in force for the first seconds of the chain: an
output locked until height 500 is spent at height 1. -/
theorem testNetBlock_unlocks :
    testNetParams.consensus.isProtocolV3_1 testNetBlock.getBlockTime = true ∧
      scriptChecksNeeded testNetConfig testNetChain testNetIndex = true ∧
      (contextualCheckBlock testNetParams.consensus testNetBlock [testNetGenesis]
        .init).1.isReturned = true ∧
      (connectBlock (testNetConfig.interpreting toyScriptLib) testNetChain .ok testNetBlock
        testNetIndex [testNetGenesis] testNetChain.pcoinsTip false .init).1.isReturned = true ∧
      ∃ txin coins txout,
        VerifiesInput testNetConfig testNetBlock 1 testNetChain.pcoinsTip testNetSpend 0 txin coins
          txout ∧
        Executes toyScriptLib
          (blockScriptFlags testNetParams.consensus testNetBlock.getBlockTime)
          (transactionSignatureChecker testNetConfig.hashes testNetConfig.crypto.verifyPubKey
            testNetSpend 0) txin.scriptSig txout.scriptPubKey OP_CHECKLOCKTIMEVERIFY 500 ∧
        ¬∃ nPastTime, getPastTimeLimit testNetParams.consensus [testNetGenesis] = some nPastTime ∧
          LockTimePassed 1 nPastTime 500 := by
  refine ⟨by decide +kernel, by decide +kernel, by decide +kernel, by decide +kernel,
    ⟨⟨testNetCoinBase.getHash toyCrypto.toHashes, 0⟩, [], 0xffffffff⟩,
    CCoins.fromTx testNetCoinBase 1, ⟨getProofOfWorkSubsidy, [0x02, 0xf4, 0x01, 0xb1]⟩, ?_, ?_, ?_⟩
  · exact ⟨by decide +kernel, by decide +kernel, rfl,
      ⟨[testNetCoinBase], [], _, rfl, rfl, by decide +kernel⟩, rfl⟩
  · exact executes_of_push [0x02, 0xf4, 0x01] [0xf4, 0x01] ⟨by simp [Machine.start], rfl⟩ rfl
  · rintro ⟨nPastTime, -, hpassed⟩
    simp [LockTimePassed, LOCKTIME_THRESHOLD] at hpassed

end Jumpcoin
