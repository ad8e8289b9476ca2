import Jumpcoin.Foundation.StdSort
import Mathlib.Logic.Function.Basic
import Mathlib.Tactic

/-!
# Eviction of connections

`AttemptToEvictConnection` of `net.cpp`. When the node is full, the inbound peers that are best by
one of several criteria are protected, criterion after criterion; of those left the youngest of the
largest network group is disconnected.

A protection compares the peers that the ones before it have left. Those it protects are candidates
all the same, so the peer that is disconnected is outdone among all the candidates.
-/

namespace Jumpcoin

open List

/-- The fields of a connection that eviction reads. -/
structure CNode where
  id : Int
  nTimeConnected : Int
  nMinPingUsecTime : Int
  nLastBlockTime : Int
  nLastTXTime : Int
  nServices : Nat
  fRelayTxes : Bool
  pfilter : Bool
  nKeyedNetGroup : Nat
  fWhitelisted : Bool
  fInbound : Bool
  fDisconnect : Bool

/-- The connections of a node. Each gets the next id. -/
structure Connections where
  vNodes : List CNode
  distinct : (vNodes.map CNode.id).Nodup

structure NodeEvictionCandidate where
  id : Int
  nTimeConnected : Int
  nMinPingUsecTime : Int
  nLastBlockTime : Int
  nLastTXTime : Int
  fRelevantServices : Bool
  fRelayTxes : Bool
  fBloomFilter : Bool
  nKeyedNetGroup : Nat

namespace NodeEvictionCandidate

/-! ## Comparisons -/

variable (a b : NodeEvictionCandidate)

def reverseCompareNodeMinPingTime : Bool := decide (a.nMinPingUsecTime > b.nMinPingUsecTime)

def reverseCompareNodeTimeConnected : Bool := decide (a.nTimeConnected > b.nTimeConnected)

def compareNetGroupKeyed : Bool := decide (a.nKeyedNetGroup < b.nKeyedNetGroup)

def compareNodeBlockTime : Bool :=
  -- There is a fall-through here because it is common for a node to have many peers which have not
  -- yet relayed a block.
  if a.nLastBlockTime ≠ b.nLastBlockTime then decide (a.nLastBlockTime < b.nLastBlockTime)
  else if a.fRelevantServices ≠ b.fRelevantServices then b.fRelevantServices
  else decide (a.nTimeConnected > b.nTimeConnected)

def compareNodeTXTime : Bool :=
  if a.nLastTXTime ≠ b.nLastTXTime then decide (a.nLastTXTime < b.nLastTXTime)
  else if a.fRelayTxes ≠ b.fRelayTxes then b.fRelayTxes
  else if a.fBloomFilter ≠ b.fBloomFilter then a.fBloomFilter
  else decide (a.nTimeConnected > b.nTimeConnected)

lemma strictWeak_minPingTime : StrictWeak reverseCompareNodeMinPingTime := by
  constructor <;> simp only [reverseCompareNodeMinPingTime] <;> grind

lemma strictWeak_timeConnected : StrictWeak reverseCompareNodeTimeConnected := by
  constructor <;> simp only [reverseCompareNodeTimeConnected] <;> grind

lemma strictWeak_netGroup : StrictWeak compareNetGroupKeyed := by
  constructor <;> simp only [compareNetGroupKeyed] <;> grind

lemma strictWeak_blockTime : StrictWeak compareNodeBlockTime := by
  constructor <;> simp only [compareNodeBlockTime] <;> grind

lemma strictWeak_txTime : StrictWeak compareNodeTXTime := by
  constructor <;> simp only [compareNodeTXTime] <;> grind

end NodeEvictionCandidate

open NodeEvictionCandidate

/-! ## Protection -/

def CNode.eligible (node : CNode) : Bool := !node.fWhitelisted && node.fInbound && !node.fDisconnect

def CNode.candidate (nRelevantServices : Nat) (node : CNode) : NodeEvictionCandidate :=
  ⟨node.id, node.nTimeConnected, node.nMinPingUsecTime, node.nLastBlockTime, node.nLastTXTime,
    node.nServices &&& nRelevantServices == nRelevantServices, node.fRelayTxes, node.pfilter,
    node.nKeyedNetGroup⟩

def evictionCandidates (nRelevantServices : Nat) (vNodes : List CNode) :
    List NodeEvictionCandidate :=
  (vNodes.filter CNode.eligible).map (CNode.candidate nRelevantServices)

/-- The candidates are sorted and those at the end are protected. -/
structure Protection where
  less : NodeEvictionCandidate → NodeEvictionCandidate → Bool
  weak : StrictWeak less
  count : Nat → Nat

def protections : List Protection :=
  [ -- Deterministically select 4 peers to protect by netgroup.
    ⟨compareNetGroupKeyed, strictWeak_netGroup, min 4⟩,
    -- Protect the 8 nodes with the lowest minimum ping time.
    ⟨reverseCompareNodeMinPingTime, strictWeak_minPingTime, min 8⟩,
    -- Protect 4 nodes that most recently sent us transactions.
    ⟨compareNodeTXTime, strictWeak_txTime, min 4⟩,
    -- Protect 4 nodes that most recently sent us blocks.
    ⟨compareNodeBlockTime, strictWeak_blockTime, min 4⟩,
    -- Protect the half of the remaining nodes which have been connected the longest.
    ⟨reverseCompareNodeTimeConnected, strictWeak_timeConnected, (· / 2)⟩]

/-- The candidates that are left. Before each protection it is checked that there are any. -/
def unprotected (std : StdSort NodeEvictionCandidate) :
    List Protection → List NodeEvictionCandidate → List NodeEvictionCandidate
  | [], vEvictionCandidates => vEvictionCandidates
  | p :: ps, vEvictionCandidates =>
    if vEvictionCandidates.isEmpty then []
    else unprotected std ps
      (std.eraseLast p.less (p.count vEvictionCandidates.length) vEvictionCandidates)

/-! ## The largest group -/

/-- The group with the most connections among the candidates visited, if any, and all groups. -/
structure GroupSearch where
  naMostConnections : Option Nat := none
  nMostConnections : Nat := 0
  nMostConnectionsTime : Int := 0
  mapNetGroupNodes : Nat → List NodeEvictionCandidate := fun _ => []

def GroupSearch.visit (s : GroupSearch) (node : NodeEvictionCandidate) : GroupSearch :=
  let group := s.mapNetGroupNodes node.nKeyedNetGroup ++ [node]
  let grouptime := (group.headD node).nTimeConnected
  let s := { s with
    mapNetGroupNodes := Function.update s.mapNetGroupNodes node.nKeyedNetGroup group }
  if s.nMostConnections < group.length ∨
      group.length = s.nMostConnections ∧ s.nMostConnectionsTime < grouptime then
    { s with
      naMostConnections := some node.nKeyedNetGroup
      nMostConnections := group.length
      nMostConnectionsTime := grouptime }
  else s

/-- The first node of the group. There is none before a group has been chosen. -/
def GroupSearch.front (s : GroupSearch) : Option NodeEvictionCandidate := do
  (s.mapNetGroupNodes (← s.naMostConnections)).head?

def disconnectNode (id : Int) : List CNode → Option (List CNode)
  | [] => none
  | node :: vNodes =>
    if node.id = id then some ({ node with fDisconnect := true } :: vNodes)
    else (disconnectNode id vNodes).map (node :: ·)

/-- Whether a node was disconnected, and the nodes afterwards. -/
def attemptToEvictConnection (std : StdSort NodeEvictionCandidate) (nRelevantServices : Nat)
    (vNodes : List CNode) : Option (Bool × List CNode) :=
  let vEvictionCandidates :=
    unprotected std protections (evictionCandidates nRelevantServices vNodes)
  if vEvictionCandidates.isEmpty then some (false, vNodes)
  else (vEvictionCandidates.foldl GroupSearch.visit {}).front.map fun evicted =>
    ((disconnectNode evicted.id vNodes).map (true, ·)).getD (false, vNodes)

/-! ## The search is right -/

/-- What the search has found among the candidates it has visited: their groups, and one that no
group exceeds in size, or at the same size in the time of its first node. -/
structure GroupSearch.Found (l : List NodeEvictionCandidate) (s : GroupSearch) : Prop where
  groups : ∀ k, s.mapNetGroupNodes k = l.filter fun c => c.nKeyedNetGroup == k
  length_le : ∀ k, (s.mapNetGroupNodes k).length ≤ s.nMostConnections
  time_le : ∀ k, (s.mapNetGroupNodes k).length = s.nMostConnections →
    ∀ c ∈ (s.mapNetGroupNodes k).head?, c.nTimeConnected ≤ s.nMostConnectionsTime
  chosen : s.nMostConnections ≠ 0 → ∃ k front, s.naMostConnections = some k ∧
    (s.mapNetGroupNodes k).head? = some front ∧ (s.mapNetGroupNodes k).length = s.nMostConnections ∧
    front.nTimeConnected = s.nMostConnectionsTime

namespace GroupSearch

lemma Found.visit {l : List NodeEvictionCandidate} {s : GroupSearch} (h : s.Found l)
    (node : NodeEvictionCandidate) : (s.visit node).Found (l ++ [node]) := by
  obtain ⟨hgroups, hlength, htime, hchosen⟩ := h
  set group := s.mapNetGroupNodes node.nKeyedNetGroup ++ [node] with hgroup
  have hgrown : group.length = (s.mapNetGroupNodes node.nKeyedNetGroup).length + 1 := by
    simp [hgroup]
  have hhead : group.head? = some (group.headD node) := by
    rw [hgroup]
    cases s.mapNetGroupNodes node.nKeyedNetGroup <;> rfl
  have hafter (k : Nat) : Function.update s.mapNetGroupNodes node.nKeyedNetGroup group k =
      (l ++ [node]).filter fun c => c.nKeyedNetGroup == k := by
    by_cases hk : k = node.nKeyedNetGroup
    · simp [hk, hgroup, hgroups]
    · simp [hk, hgroups, Ne.symm hk]
  have hother {k : Nat} (hk : k ≠ node.nKeyedNetGroup) :=
    Function.update_of_ne hk group s.mapNetGroupNodes
  have hself := Function.update_self node.nKeyedNetGroup group s.mapNetGroupNodes
  unfold GroupSearch.visit
  simp only [← hgroup]
  split_ifs with hmore
  · refine ⟨hafter, fun k => ?_, fun k hk c hc => ?_, fun _ => ⟨_, _, rfl,
      (congrArg head? hself).trans hhead, congrArg List.length hself, rfl⟩⟩ <;>
      clear hafter hgroups hgroup <;> rcases eq_or_ne k node.nKeyedNetGroup with rfl | hne
    · exact (congrArg List.length hself).le
    · grind
    · grind
    · grind
  · refine ⟨hafter, fun k => ?_, fun k hk c hc => ?_, fun hne => ?_⟩ <;>
      clear hafter hgroups hgroup
    · grind
    · rcases eq_or_ne k node.nKeyedNetGroup with rfl | hne <;> grind
    · obtain ⟨k, front, hna, hfront, hsize, hfronttime⟩ := hchosen hne
      have hk : k ≠ node.nKeyedNetGroup := by grind
      exact ⟨k, front, hna, (congrArg head? (hother hk)).trans hfront,
        (congrArg List.length (hother hk)).trans hsize, hfronttime⟩

lemma Found.foldl {l : List NodeEvictionCandidate} {s : GroupSearch} (h : s.Found l)
    (l' : List NodeEvictionCandidate) : (l'.foldl GroupSearch.visit s).Found (l ++ l') := by
  induction l' generalizing l s with
  | nil => simpa using h
  | cons node l' ih => simpa using ih (h.visit node)

end GroupSearch

/-! ## Who is evicted -/

/-- Among the candidates there are others at least as good by each criterion. -/
structure Outdone (all : List NodeEvictionCandidate) (e : NodeEvictionCandidate) : Prop where
  netGroup : 4 ≤ all.countP fun c => c.id != e.id && decide (e.nKeyedNetGroup ≤ c.nKeyedNetGroup)
  minPing : 8 ≤ all.countP fun c => c.id != e.id && decide (c.nMinPingUsecTime ≤ e.nMinPingUsecTime)
  txTime : 4 ≤ all.countP fun c => c.id != e.id && decide (e.nLastTXTime ≤ c.nLastTXTime)
  blockTime : 4 ≤ all.countP fun c => c.id != e.id && decide (e.nLastBlockTime ≤ c.nLastBlockTime)

variable {std : StdSort NodeEvictionCandidate} {all l : List NodeEvictionCandidate}

lemma unprotected_cons (p : Protection) (ps : List Protection) :
    unprotected std (p :: ps) l =
      unprotected std ps (std.eraseLast p.less (p.count l.length) l) := by
  cases l with
  | nil =>
    rw [subperm_nil.mp (StdSort.eraseLast_subperm p.weak)]
    cases ps <;> rfl
  | cons c l => rfl

/-- What is left of the candidates, in the order of their ages. -/
lemma unprotected_protections (std : StdSort NodeEvictionCandidate)
    (hdistinct : (all.map (·.id)).Nodup) :
    (∀ e ∈ unprotected std protections all, e ∈ all ∧ Outdone all e) ∧
      (unprotected std protections all = [] ↔ all.length ≤ 20) ∧
      (unprotected std protections all).Pairwise fun a b =>
        b.nTimeConnected ≤ a.nTimeConnected := by
  have hstep {less : NodeEvictionCandidate → NodeEvictionCandidate → Bool} {k : Nat}
      {l l' : List NodeEvictionCandidate} (h : StrictWeak less) (hl' : std.eraseLast less k l = l')
      (hsub : l.Subperm all) : l'.Subperm all ∧ l' ⊆ l ∧ l'.length = l.length - k :=
    have hsub' := hl' ▸ StdSort.eraseLast_subperm h
    ⟨hsub'.trans hsub, hsub'.subset, hl' ▸ StdSort.length_eraseLast h⟩
  simp only [protections, unprotected_cons, unprotected.eq_1]
  generalize h₁ : std.eraseLast compareNetGroupKeyed _ all = l₁
  generalize h₂ : std.eraseLast reverseCompareNodeMinPingTime _ l₁ = l₂
  generalize h₃ : std.eraseLast compareNodeTXTime _ l₂ = l₃
  generalize h₄ : std.eraseLast compareNodeBlockTime _ l₃ = l₄
  generalize h₅ : std.eraseLast reverseCompareNodeTimeConnected _ l₄ = l₅
  obtain ⟨hs₁, -, hlen₁⟩ := hstep strictWeak_netGroup h₁ (.refl all)
  obtain ⟨hs₂, hsub₂, hlen₂⟩ := hstep strictWeak_minPingTime h₂ hs₁
  obtain ⟨hs₃, hsub₃, hlen₃⟩ := hstep strictWeak_txTime h₃ hs₂
  obtain ⟨hs₄, hsub₄, hlen₄⟩ := hstep strictWeak_blockTime h₄ hs₃
  obtain ⟨hs₅, hsub₅, hlen₅⟩ := hstep strictWeak_timeConnected h₅ hs₄
  refine ⟨fun e he => ⟨hs₅.subset he, ?_⟩, ?_, ?_⟩
  · have hsome := length_pos_of_mem he
    rw [min_eq_left (by omega)] at h₁ h₂ h₃ h₄
    have he₄ := hsub₅ he
    have he₃ := hsub₄ he₄
    have he₂ := hsub₃ he₃
    have he₁ := hsub₂ he₂
    subst h₄ h₃ h₂ h₁
    constructor
    · exact StdSort.le_countP_of_mem_eraseLast strictWeak_netGroup (.refl all) hdistinct (by omega)
        he₁ fun c hc => by simpa [compareNetGroupKeyed] using hc
    · exact StdSort.le_countP_of_mem_eraseLast strictWeak_minPingTime hs₁ hdistinct (by omega) he₂
        fun c hc => by simpa [reverseCompareNodeMinPingTime] using hc
    · refine StdSort.le_countP_of_mem_eraseLast strictWeak_txTime hs₂ hdistinct (by omega) he₃
        fun c hc => ?_
      simp only [compareNodeTXTime] at hc
      grind
    · refine StdSort.le_countP_of_mem_eraseLast strictWeak_blockTime hs₃ hdistinct (by omega) he₄
        fun c hc => ?_
      simp only [compareNodeBlockTime] at hc
      grind
  · rw [← length_eq_zero_iff]
    omega
  · exact (h₅ ▸ StdSort.pairwise_eraseLast strictWeak_timeConnected).imp fun h => by
      simpa [reverseCompareNodeTimeConnected] using h

/-- The candidate is the youngest of the largest groups. -/
structure Youngest (left : List NodeEvictionCandidate) (e : NodeEvictionCandidate) : Prop where
  mem : e ∈ left
  largest : ∀ k, (left.filter (·.nKeyedNetGroup == k)).length ≤
    (left.filter (·.nKeyedNetGroup == e.nKeyedNetGroup)).length
  youngest : ∀ c ∈ left, (left.filter (·.nKeyedNetGroup == c.nKeyedNetGroup)).length =
    (left.filter (·.nKeyedNetGroup == e.nKeyedNetGroup)).length →
    c.nTimeConnected ≤ e.nTimeConnected

lemma GroupSearch.Found.youngest {s : GroupSearch} (h : s.Found l) (hne : l ≠ [])
    (hsorted : l.Pairwise fun a b => b.nTimeConnected ≤ a.nTimeConnected) :
    ∃ front, s.front = some front ∧ Youngest l front := by
  have hmem (c : NodeEvictionCandidate) (hc : c ∈ l) : c ∈ s.mapNetGroupNodes c.nKeyedNetGroup := by
    simpa [h.groups] using hc
  obtain ⟨c, hc⟩ := exists_mem_of_ne_nil l hne
  obtain ⟨k, front, hna, hhead, hlength, htime⟩ := h.chosen
    ((length_pos_of_mem (hmem c hc)).trans_le (h.length_le _)).ne'
  obtain ⟨hfront, hk⟩ : front ∈ l ∧ front.nKeyedNetGroup = k := by
    have hmem := mem_of_mem_head? hhead
    simpa [h.groups] using hmem
  have hsize := hk.symm ▸ hlength
  refine ⟨front, by rw [GroupSearch.front, hna]; exact hhead, hfront, fun k' => ?_,
    fun c hc heq => ?_⟩
  · rw [← h.groups, ← h.groups, hsize]
    exact h.length_le k'
  · rw [← h.groups, ← h.groups, hsize] at heq
    have hgroup := hsorted.filter fun d => d.nKeyedNetGroup == c.nKeyedNetGroup
    have hfirst := h.time_le _ heq
    have hcmem := hmem c hc
    rw [← h.groups] at hgroup
    generalize s.mapNetGroupNodes c.nKeyedNetGroup = group at hgroup hfirst hcmem
    cases group with
    | nil => simp at hcmem
    | cons d group =>
      rw [pairwise_cons] at hgroup
      have hd := hfirst d rfl
      rcases mem_cons.mp hcmem with rfl | hc
      · exact hd.trans_eq htime.symm
      · exact ((hgroup.1 c hc).trans hd).trans_eq htime.symm

lemma disconnectNode_eq {vNodes : List CNode} (hdistinct : (vNodes.map CNode.id).Nodup)
    {node : CNode} (hmem : node ∈ vNodes) : ∃ before after, vNodes = before ++ node :: after ∧
      disconnectNode node.id vNodes =
        some (before ++ { node with fDisconnect := true } :: after) := by
  induction vNodes with
  | nil => simp at hmem
  | cons first vNodes ih =>
    rw [map_cons, nodup_cons] at hdistinct
    rcases mem_cons.mp hmem with rfl | hmem
    · exact ⟨[], vNodes, rfl, if_pos rfl⟩
    · obtain ⟨before, after, rfl, heq⟩ := ih hdistinct.2 hmem
      have hne : first.id ≠ node.id := fun h => hdistinct.1 (h ▸ mem_map_of_mem hmem)
      exact ⟨first :: before, after, rfl, by simp [disconnectNode, hne, heq]⟩

/-- One peer is disconnected if more than twenty are eligible, and none otherwise. -/
theorem attemptToEvictConnection_spec (std : StdSort NodeEvictionCandidate)
    (nRelevantServices : Nat) (nodes : Connections) :
    let all := evictionCandidates nRelevantServices nodes.vNodes
    let left := unprotected std protections all
    let result := attemptToEvictConnection std nRelevantServices nodes.vNodes
    nodes.vNodes.countP CNode.eligible ≤ 20 ∧ result = some (false, nodes.vNodes) ∨
      20 < nodes.vNodes.countP CNode.eligible ∧
      ∃ before node after, nodes.vNodes = before ++ node :: after ∧
        result = some (true, before ++ { node with fDisconnect := true } :: after) ∧
        node.fInbound = true ∧ node.fWhitelisted = false ∧
        Outdone all (node.candidate nRelevantServices) ∧
        Youngest left (node.candidate nRelevantServices) := by
  intro all left result
  have hdistinct : (all.map (·.id)).Nodup := by
    rw [show all = List.map _ _ from rfl, map_map]
    exact nodes.distinct.sublist ((filter_sublist).map CNode.id)
  have hcount : all.length = nodes.vNodes.countP CNode.eligible := by
    rw [countP_eq_length_filter, ← length_map (CNode.candidate nRelevantServices)]
    rfl
  obtain ⟨hmem, hempty, hsorted⟩ := unprotected_protections std hdistinct
  rw [← hcount]
  by_cases hfew : all.length ≤ 20
  · exact .inl ⟨hfew, if_pos (isEmpty_iff.mpr (hempty.mpr hfew))⟩
  · have hne := fun h => hfew (hempty.mp h)
    have hinit : GroupSearch.Found [] {} := ⟨fun _ => rfl, fun _ => le_rfl, by simp, by simp⟩
    obtain ⟨front, hfront, hyoungest⟩ := (hinit.foldl left).youngest hne hsorted
    obtain ⟨hall, houtdone⟩ := hmem front hyoungest.mem
    obtain ⟨node, hnode, rfl⟩ := mem_map.mp hall
    obtain ⟨hnode, heligible⟩ := mem_filter.mp hnode
    obtain ⟨before, after, hvNodes, hdisconnect⟩ := disconnectNode_eq nodes.distinct hnode
    simp only [CNode.eligible, Bool.and_eq_true, Bool.not_eq_true'] at heligible
    refine .inr ⟨not_le.mp hfew, before, node, after, hvNodes, (if_neg ?_).trans ?_, heligible.1.2,
      heligible.1.1, houtdone, hyoungest⟩
    · rwa [List.isEmpty_iff]
    · refine (congrArg (Option.map _) hfront).trans (congrArg some ?_)
      exact congrArg (fun o => (Option.map (true, ·) o).getD (false, nodes.vNodes)) hdisconnect

/-- Inbound peers, connected one after the other, of which every third is in the same group. -/
def inboundPeers (n : Nat) : List CNode :=
  (List.range n).map fun (i : Nat) =>
    ⟨i, i, 100 - i, 0, 0, 1, true, false, i % 3, false, true, false⟩

example : (attemptToEvictConnection .insertion 1 (inboundPeers 20)).map Prod.fst = some false := by
  decide +kernel

example : (attemptToEvictConnection .insertion 1 (inboundPeers 21)).map (fun r =>
    (r.1, (r.2.filter CNode.fDisconnect).length)) = some (true, 1) := by
  decide +kernel

end Jumpcoin
