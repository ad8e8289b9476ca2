import Jumpcoin.Net.AddrReload

/-!
# Runs of the address manager

A manager is used through a few operations, is written to disk and read back, into a new manager
when the node starts again or into a manager that is there. No assertion fails and the consistency
check finds nothing wrong after any step of a run, as long as the counter of ids does not run over,
no attempt is dated before 1970, and a manager is read into only while it holds no address. The
last condition is there since `Clear` leaves `mapInfo` and `mapAddr` as they are.
-/

namespace Jumpcoin

inductive AddrOp
  | add (addr : CAddress) (source : CNetAddr) (nTimePenalty nNow : Int) (nRandom : Nat)
  | good (addr : CService) (nTime : Int64) (nRnd : Nat)
  | attempt (addr : CService) (fCountFailure : Bool) (nTime : Int64)
  | connected (addr : CService) (nTime : Int64)
  | setServices (addr : CService) (nServices : UInt64)
  | getAddr (nNow : Int) (random : Nat → Nat)
  /-- `Serialize`, and `Unserialize` into a new manager. -/
  | restart (nClientVersion : Int32) (nKey : BitVec 256)
  /-- `Serialize`, and `Unserialize` into the same manager. -/
  | reread (nClientVersion : Int32)

namespace CAddrMan

variable (h : AddrHashes)

def step (s : CAddrMan) : AddrOp → Option CAddrMan
  | .add addr source nTimePenalty nNow nRandom =>
    (s.add_ h addr source nTimePenalty nNow nRandom).map Prod.snd
  | .good addr nTime nRnd => s.good_ h addr nTime nRnd
  | .attempt addr fCountFailure nTime => some (s.attempt_ addr fCountFailure nTime)
  | .connected addr nTime => some (s.connected_ addr nTime)
  | .setServices addr nServices => some (s.setServices_ addr nServices)
  | .getAddr nNow random => (s.getAddr_ nNow random).map Prod.snd
  | .restart nClientVersion nKey => do
    let bytes ← s.serialize nClientVersion
    (new nKey).unserialize h bytes
  | .reread nClientVersion => do
    let bytes ← s.serialize nClientVersion
    s.unserialize h bytes

def run (s : CAddrMan) (ops : List AddrOp) : Option CAddrMan := ops.foldlM (step h) s

def Safe (s : CAddrMan) : AddrOp → Prop
  | .add .. => s.nIdCount < 2 ^ 31 - 1
  | .attempt _ _ nTime => 0 ≤ nTime.toInt
  | .reread _ => Blank s
  | _ => True

def SafeRun : CAddrMan → List AddrOp → Prop
  | _, [] => True
  | s, op :: ops => s.Safe op ∧ ∀ s', s.step h op = some s' → SafeRun s' ops

variable {h} {s : CAddrMan} {ops : List AddrOp}

def GoodTimes (ops : List AddrOp) : Prop :=
  ∀ addr nTime nRnd, .good addr nTime nRnd ∈ ops → 0 < nTime.toInt

lemma step_spec (hc : Consistent h s) {op : AddrOp} (hsafe : s.Safe op)
    (hgood : GoodTimes [op]) : ∃ s', s.step h op = some s' ∧ Consistent h s' := by
  cases op with
  | add addr source nTimePenalty nNow nRandom =>
    obtain ⟨r, hr, hc'⟩ := add_spec hc hsafe addr source nTimePenalty nNow nRandom
    exact ⟨r.2, by rw [step, hr]; rfl, hc'⟩
  | good addr nTime nRnd => exact good_spec hc addr nRnd (hgood addr nTime nRnd List.mem_cons_self)
  | attempt addr fCountFailure nTime => exact ⟨_, rfl, attempt_spec hc addr fCountFailure hsafe⟩
  | connected addr nTime => exact ⟨_, rfl, connected_spec hc addr nTime⟩
  | setServices addr nServices => exact ⟨_, rfl, setServices_spec hc addr nServices⟩
  | getAddr nNow random =>
    obtain ⟨r, hr, hc'⟩ := getAddr_spec hc nNow random
    exact ⟨r.2, by rw [step, hr]; rfl, hc'⟩
  | restart nClientVersion nKey =>
    obtain ⟨bytes, s', hbytes, hread, hc'⟩ := unserialize_spec hc (blank_new nKey) nClientVersion
    exact ⟨s', by rw [step, hbytes]; exact hread, hc'⟩
  | reread nClientVersion =>
    obtain ⟨bytes, s', hbytes, hread, hc'⟩ := unserialize_spec hc hsafe nClientVersion
    exact ⟨s', by rw [step, hbytes]; exact hread, hc'⟩

lemma run_spec (hc : Consistent h s) (hsafe : SafeRun h s ops)
    (hgood : GoodTimes ops) : ∃ s', run h s ops = some s' ∧ Consistent h s' := by
  induction ops generalizing s with
  | nil => exact ⟨s, rfl, hc⟩
  | cons op ops ih =>
    have hop : GoodTimes [op] := fun addr nTime nRnd hmem =>
      hgood addr nTime nRnd (by simp at hmem; simp [hmem])
    obtain ⟨s₁, hstep, hc₁⟩ := step_spec hc hsafe.1 hop
    obtain ⟨s', hrun, hc'⟩ := ih hc₁ (hsafe.2 s₁ hstep) fun addr nTime nRnd hmem =>
      hgood addr nTime nRnd (List.mem_cons_of_mem _ hmem)
    exact ⟨s', by rw [run, List.foldlM_cons, hstep]; exact hrun, hc'⟩

lemma SafeRun.take (hsafe : SafeRun h s ops) (n : Nat) : SafeRun h s (ops.take n) := by
  induction ops generalizing s n with
  | nil => simpa using hsafe
  | cons op ops ih =>
    cases n with
    | zero => trivial
    | succ n => exact ⟨hsafe.1, fun s' hs' => ih (hsafe.2 s' hs') n⟩

/-- In a run from an empty manager no assertion fails, and the check finds nothing wrong after any
step. -/
theorem check_of_safeRun (h : AddrHashes) {nKey : BitVec 256} (hkey : nKey ≠ 0)
    {ops : List AddrOp} (hgood : GoodTimes ops) (hsafe : SafeRun h (new nKey) ops) (n : Nat) :
    ∃ s, run h (new nKey) (ops.take n) = some s ∧ s.check_ h = 0 := by
  obtain ⟨s, hrun, hc⟩ := run_spec (consistent_new hkey) (hsafe.take n)
    fun addr nTime nRnd hmem => hgood addr nTime nRnd (List.mem_of_mem_take hmem)
  exact ⟨s, hrun, check_eq_zero hc⟩

/-! ### A manager that is read into itself -/

/-- Reading back does not need the bytes. -/
lemma run_reread {t : CAddrMan} {data : PeersData}
    (hrun : run h s ops = some t) (hc : Consistent h t) (hdata : t.peersData = data)
    (nClientVersion : Int32) {α : Type} (f : CAddrMan → α) :
    (run h s (ops ++ [.reread nClientVersion])).map f = (t.load h data).map f := by
  have hread := unserialize_eq_load (s := t) (h := h) (peersData_orderly hc) nClientVersion
  rw [hdata] at hread
  have hstep : t.step h (.reread nClientVersion) = t.load h data := by
    rw [step, serialize_spec hc, hdata, ← hread]
    rfl
  rw [run, List.foldlM_append, ← run, hrun, ← hstep]
  simp

def onePlace : AddrHashes where
  triedBucket _ _ := 0
  newBucket _ _ _ := 0
  bucketPosition _ _ _ _ := 0
  isRoutable _ := true

def address (ip : CNetAddr) (nTime : UInt32) : CAddress := ⟨⟨ip, 31240⟩, 1, nTime⟩

def addAddress (ip : CNetAddr) (nTime : UInt32) : AddrOp :=
  .add (address ip nTime) 1 0 1500000000 0

def restartRun : List AddrOp :=
  [addAddress 1 1500000000, .good (address 1 0).toCService 1500000000 0, .restart 1000000 2]

theorem check_of_safeRun_restart : ∃ s, run onePlace (new 1) (restartRun.take 3) = some s ∧
    s.check_ onePlace = 0 := by
  have hgood : GoodTimes restartRun := by
    intro addr nTime nRnd hmem
    obtain ⟨-, rfl, -⟩ : addr = (address 1 0).toCService ∧ nTime = 1500000000 ∧ nRnd = 0 := by
      simpa [restartRun, addAddress] using hmem
    decide
  have hsafe : SafeRun onePlace (new 1) restartRun :=
    ⟨Nat.lt_of_sub_pos (by decide), fun _ _ => ⟨trivial, fun _ _ => ⟨trivial, fun _ _ => trivial⟩⟩⟩
  exact check_of_safeRun onePlace (by decide) hgood hsafe 3

/-- An address of long ago, in whose place there is another one by now. -/
def replaced : CAddrMan where
  nIdCount := 2
  mapInfo :=
    ⟨[(1, { CAddrInfo.new (address 2 1500000000) 1 with nRefCount := 1, nRandomPos := 0 })],
    List.pairwise_singleton _ _⟩
  mapAddr := fun ip =>
    if ip = 1 then none else if ip = 2 then some 1 else if ip = 1 then some 0 else none
  vRandom := [1]
  nTried := 0
  vvTried := fun _ _ => none
  nNew := 1
  vvNew := ((Buckets.put (fun _ _ => none) 0 0 (some 0)).put 0 0 none).put 0 0 (some 1)
  nLastGood := 1
  nKey := 1

lemma run_replaced :
    run onePlace (new 1) [addAddress 1 1400000000, addAddress 2 1500000000] = some replaced := rfl

lemma bucketIndexes_replaced (bucket : Nat) :
    replaced.bucketIndexes bucket = if bucket = 0 then [0] else [] := by
  split_ifs with hbucket
  · rw [hbucket]
    decide +kernel
  · have hnone : replaced.vvNew bucket = fun _ => none := by
      ext p
      simp [replaced, Buckets.put, hbucket]
    simp [bucketIndexes, hnone]

/-- What the manager stores, with the buckets written out. -/
lemma peersData_replaced : replaced.peersData =
    ⟨1, 1, 1, 0, 1024, [⟨address 2 1500000000, 1, 0, 0⟩], [],
      (List.range ADDRMAN_NEW_BUCKET_COUNT).map fun bucket => if bucket = 0 then [0] else []⟩ := by
  have hbuckets : replaced.bucketIndexes = fun bucket => if bucket = 0 then [0] else [] :=
    funext bucketIndexes_replaced
  rw [peersData, hbuckets]
  rfl

lemma consistent_replaced : Consistent onePlace replaced := by
  have hsafe : SafeRun onePlace (new 1) [addAddress 1 1400000000, addAddress 2 1500000000] := by
    refine ⟨Nat.lt_of_sub_pos (by decide), fun s hs => ⟨?_, fun _ _ => trivial⟩⟩
    have hcount : (step onePlace (new 1) (addAddress 1 1400000000)).map nIdCount = some 1 := rfl
    rw [hs, Option.map_some, Option.some.injEq] at hcount
    change s.nIdCount < 2 ^ 31 - 1
    omega
  have hgood : GoodTimes [addAddress 1 1400000000, addAddress 2 1500000000] := by
    intro addr nTime nRnd hmem
    simp [addAddress] at hmem
  obtain ⟨s, hrun, hc⟩ := run_spec (consistent_new (by decide)) hsafe hgood
  cases hrun
  exact hc

/-- The id that the address has in the file is not the one it had, under which its entry is still
there when the manager is read in place. -/
theorem check_reread : (run onePlace (new 1)
    [addAddress 1 1400000000, addAddress 2 1500000000, .reread 1000000]).map (check_ onePlace) =
      some (-5) := by
  have hload : (replaced.load onePlace ⟨1, 1, 1, 0, 1024, [⟨address 2 1500000000, 1, 0, 0⟩], [],
      (List.range ADDRMAN_NEW_BUCKET_COUNT).map fun bucket => if bucket = 0 then [0] else []⟩).map
        (check_ onePlace) = some (-5) := by
    decide +kernel
  exact (run_reread run_replaced consistent_replaced peersData_replaced 1000000 _).trans hload

end CAddrMan

end Jumpcoin
