import Jumpcoin.Node.Headers

/-!
# The state of a node

The globals of `main.cpp` that receiving and activating blocks works on, and the order in which
candidates for the active chain are tried.

Disk operations and the memory pool are part of an `Environment`: which operations succeed is up to
it, and so is what the pool holds after blocks are connected or disconnected. Where an operation
fails, the source reports an error and stops.
-/

namespace Jumpcoin

open Codec (Bytes)
open Check CValidationState

abbrev Mempool := Finmap fun _ : Uint256 => CTransaction

/-- What a node meets outside of the modelled state; operations are named by the block they are
for. -/
structure Environment where
  connectDisk : Uint256 → Disk
  findBlockPos : Uint256 → Bool
  writeBlockToDisk : Uint256 → Bool
  flushStateToDisk : Uint256 → Bool
  flushPeriodic : Bool
  /-- the records without an unspent output that the cache of the coins database still has when the
  active chain has become the given one -/
  unflushed : List Uint256 → Uint256 × Int32 → Bool
  /-- `mempool.removeForBlock` -/
  removeForBlock : Mempool → List CTransaction → Mempool
  /-- the transactions of a disconnected block return to the pool -/
  resurrect : Mempool → List CTransaction → Mempool
  /-- `mempool.removeForReorg` and `LimitMempoolSize` -/
  removeForReorg : Mempool → Mempool

structure Environment.DiskOk (env : Environment) : Prop where
  connectDisk : ∀ hash, env.connectDisk hash = .ok
  findBlockPos : ∀ hash, env.findBlockPos hash = true
  writeBlockToDisk : ∀ hash, env.writeBlockToDisk hash = true
  flushStateToDisk : ∀ hash, env.flushStateToDisk hash = true
  flushPeriodic : env.flushPeriodic = true

/-- An environment in which everything on disk works, all that is cached is written at once, and the
memory pool keeps what it holds. -/
def toyEnvironment : Environment where
  connectDisk _ := .ok
  findBlockPos _ := true
  writeBlockToDisk _ := true
  flushStateToDisk _ := true
  flushPeriodic := true
  unflushed _ _ := false
  removeForBlock mempool _ := mempool
  resurrect mempool _ := mempool
  removeForReorg mempool := mempool

lemma toyEnvironment_diskOk : toyEnvironment.DiskOk :=
  ⟨fun _ => rfl, fun _ => rfl, fun _ => rfl, fun _ => rfl, rfl⟩

structure Node extends ChainState where
  undoFiles : Finmap fun _ : Uint256 => Bytes
  setBlockIndexCandidates : List Uint256
  /-- pairs of a block whose data is missing and a successor whose data is there -/
  mapBlocksUnlinked : List (Uint256 × Uint256)
  nBlockSequenceId : Nat
  deriving DecidableEq

/-- A node with one unspent coin and, in its memory pool, a transaction that spends it. -/
def toyStakeNode : Node where
  toChainState := { toyStakeChain [toyStaked] with
    pcoinsTip := ⟨Finmap.singleton 7 ⟨false, false, [⟨3000, [0x51]⟩], 1, 1, 1700000000⟩, 112⟩
    txIndex := ∅ }
  undoFiles := ∅
  setBlockIndexCandidates := [112]
  mapBlocksUnlinked := []
  nBlockSequenceId := 1

/-- A block with work on top of the tip of `toyStakeNode`. -/
def toyWorkBlock (vtx : List CTransaction) : CBlock :=
  { toyBlock ({ toyCoinBase with vin := [⟨⟨0, 0xffffffff⟩, [0x5d, 0x00], 0xffffffff⟩] } :: vtx) with
    hashPrevBlock := 112 }

/-! ## The entries of the index -/

def BlockMap.hashes (m : BlockMap) : List Uint256 :=
  Quot.liftOn m.keys.val (List.insertionSort (· ≤ ·)) fun l l' hperm =>
    ((List.perm_insertionSort (· ≤ ·) l).trans
      (hperm.trans (List.perm_insertionSort (· ≤ ·) l').symm)).eq_of_pairwise
        (fun _ _ _ _ => BitVec.le_antisymm) (List.pairwise_insertionSort (· ≤ ·) l)
        (List.pairwise_insertionSort (· ≤ ·) l')

lemma BlockMap.mem_hashes {m : BlockMap} {hash : Uint256} :
    hash ∈ m.hashes ↔ (m.lookup hash).isSome = true := by
  rw [Finmap.lookup_isSome, ← Finmap.mem_keys, ← Finset.mem_val, BlockMap.hashes]
  induction m.keys.val using Quot.inductionOn with
  | h l => exact (List.perm_insertionSort (· ≤ ·) l).mem_iff

/-! ## The active chain -/

namespace ChainState

def hashAt (chain : ChainState) (nHeight : Nat) : Option Uint256 :=
  chain.chainActive.reverse[nHeight]?

section

variable (chain : ChainState) (pindex : CBlockIndex)

def contains : Bool :=
  chain.hashAt pindex.nHeight == some pindex.hashBlock

/-- `chainActive.FindFork`: the last ancestor of an entry on the active chain. Entries above the
tip are not on it. -/
def findFork : Option CBlockIndex :=
  (pathOf chain.mapBlockIndex pindex).find? chain.contains

def pathOfPrev : List CBlockIndex :=
  ancestry chain.mapBlockIndex pindex.nHeight pindex.pprev

end

end ChainState

/-! ## Candidates -/

/-- `CBlockIndexWorkComparator`; the hash stands in for the address that breaks ties. -/
def workLess (pa pb : CBlockIndex) : Bool :=
  if pb.nChainWork < pa.nChainWork then false
  else if pa.nChainWork < pb.nChainWork then true
  else if pa.nSequenceId < pb.nSequenceId then false
  else if pb.nSequenceId < pa.nSequenceId then true
  else decide (pb.hashBlock < pa.hashBlock)

namespace Node

section

variable (node : Node)

def candidates : List CBlockIndex :=
  node.setBlockIndexCandidates.filterMap node.mapBlockIndex.lookup

def bestCandidate : Option CBlockIndex :=
  node.candidates.foldl (fun best pindex =>
    match best with
    | none => some pindex
    | some b => if workLess b pindex then some pindex else some b) none

def insertCandidate (hash : Uint256) : Node :=
  { node with setBlockIndexCandidates :=
      if hash ∈ node.setBlockIndexCandidates then node.setBlockIndexCandidates
      else hash :: node.setBlockIndexCandidates }

def eraseCandidate (hash : Uint256) : Node :=
  { node with setBlockIndexCandidates := node.setBlockIndexCandidates.filter (· ≠ hash) }

def setIndex (pindex : CBlockIndex) : Node :=
  { node with mapBlockIndex := node.mapBlockIndex.insert pindex.hashBlock pindex }

def setStatus (hash : Uint256) (f : BlockStatus → BlockStatus) : Node :=
  match node.mapBlockIndex.lookup hash with
  | none => node
  | some pindex =>
    { node with
      mapBlockIndex := node.mapBlockIndex.insert hash { pindex with nStatus := f pindex.nStatus } }

def markFailedValid (hash : Uint256) : Node :=
  node.setStatus hash fun status => { status with failedValid := true }

def markFailedChild (hash : Uint256) : Node :=
  node.setStatus hash fun status => { status with failedChild := true }

end

end Node

/-! ## Routines over a node -/

/-- A routine that works on the globals and on a validation state. -/
abbrev NodeCheck (α : Type) := Check (Node × CValidationState) α

namespace NodeCheck

variable {α : Type}

def readNode : NodeCheck Node := fun s => (.returned s.1, s)

def modifyNode (f : Node → Node) : NodeCheck Unit := fun s => (.returned (), (f s.1, s.2))

def validate (x : Validate α) : NodeCheck α := fun s => ((x s.2).1, (s.1, (x s.2).2))

/-- Update the validation state and return `false`. -/
def reject (f : CValidationState → CValidationState) : NodeCheck α :=
  refuse fun s => (s.1, f s.2)

/-- Go on only if a condition holds; otherwise update the validation state and return `false`. -/
def expect (ok : Bool) (f : CValidationState → CValidationState) : NodeCheck Unit :=
  ensure ok fun s => (s.1, f s.2)

/-- The value of a lookup; where there is none, update the validation state and return `false`. -/
def obtainOr (o : Option α) (f : CValidationState → CValidationState) : NodeCheck α :=
  match o with
  | some a => pure a
  | none => reject f

variable {β : Type} {R : Node × CValidationState → Node × CValidationState → Prop}

lemma readNode_bind (f : Node → NodeCheck β) (s : Node × CValidationState) :
    (readNode >>= f) s = f s.1 s := rfl

lemma modifyNode_bind (g : Node → Node) (f : Unit → NodeCheck β) (s : Node × CValidationState) :
    (modifyNode g >>= f) s = f () (g s.1, s.2) := rfl

lemma validate_bind (x : Validate α) (f : α → NodeCheck β) (s : Node × CValidationState) :
    (validate x >>= f) s = match x s.2 with
      | (.returned a, state) => f a (s.1, state)
      | (.refused, state) => (.refused, (s.1, state))
      | (.halted, state) => (.halted, (s.1, state)) := by
  rw [bind_apply]
  simp only [validate]
  rcases x s.2 with ⟨a | _ | _, state⟩ <;> rfl

lemma expect_true (f : CValidationState → CValidationState) : expect true f = pure () := rfl

lemma obtainOr_some (a : α) (f : CValidationState → CValidationState) :
    obtainOr (some a) f = pure a := rfl

lemma obtainOr_none (f : CValidationState → CValidationState) :
    (obtainOr none f : NodeCheck α) = reject f := rfl

lemma relates_readNode_bind {f : Node → NodeCheck β} (h : ∀ s, R s (f s.1 s).2) :
    Relates R (readNode >>= f) := h

lemma relates_modifyNode {f : Node → Node} (h : ∀ s, R s (f s.1, s.2)) :
    Relates R (modifyNode f) := h

end NodeCheck

end Jumpcoin
