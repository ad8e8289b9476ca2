import Jumpcoin.Wallet.Wallet
import Mathlib.Logic.Relation

/-!
# Abandoned transactions

`AbandonTransaction` is to abandon a transaction and all that depend on it. Its loop looks for the
spenders of each transaction it visits, but from the first spend of the transaction it was called
with, whichever it is visiting. It therefore finds the spenders of that transaction only: what
depends on them is reached when it spends that transaction too.
-/

namespace Jumpcoin

open List

namespace CWallet

variable {hashes : Hashes} {sur : Surroundings} {w w' : CWallet} {hashTx now t : Uint256}

/-! ## Entries without their caches -/

def entry (w : CWallet) (t : Uint256) : Option CWalletTx := (w.lookup t).map CWalletTx.markDirty

lemma entry_set (wtx : CWalletTx) :
    (w.set now wtx).entry t = if t = now then some wtx.markDirty else w.entry t := by
  unfold entry lookup set
  split_ifs with h
  · rw [h, AList.lookup_insert, Option.map_some]
  · rw [AList.lookup_insert_ne h]

lemma markDirty_same (w : CWallet) (hash t : Uint256) :
    (w.markDirty hash).entry t = w.entry t ∧ (w.markDirty hash).mapTxSpends = w.mapTxSpends := by
  unfold markDirty
  cases hlookup : w.lookup hash with
  | none => exact ⟨rfl, rfl⟩
  | some wtx =>
    refine ⟨?_, rfl⟩
    simp only [entry_set]
    split_ifs with h
    · rw [h, entry, hlookup]
      rfl
    · rfl

lemma markInputsDirty_same (w : CWallet) (vin : List CTxIn) (t : Uint256) :
    (w.markInputsDirty vin).entry t = w.entry t ∧
      (w.markInputsDirty vin).mapTxSpends = w.mapTxSpends := by
  induction vin generalizing w with
  | nil => exact ⟨rfl, rfl⟩
  | cons txin vin ih =>
    have hfirst := w.markDirty_same txin.prevout.hash t
    have hrest := ih (w.markDirty txin.prevout.hash)
    exact ⟨hrest.1.trans hfirst.1, hrest.2.trans hfirst.2⟩

def GivenUp (hashes : Hashes) (chain : List CBlock) (w : CWallet) (t : Uint256) : Prop :=
  ∃ wtx, w.entry t = some wtx ∧
    (wtx.isAbandoned = true ∨ wtx.getDepthInMainChain hashes chain < 0)

def Unconfirmed (hashes : Hashes) (sur : Surroundings) (w : CWallet) (t : Uint256) : Prop :=
  ∃ wtx, w.entry t = some wtx ∧ wtx.getDepthInMainChain hashes sur.chain ≤ 0 ∧
    sur.inMempool (wtx.tx.getHash hashes) = false

/-- The transactions that depend on one through any chain of recorded spends, and itself. -/
def Descends (w : CWallet) : Uint256 → Uint256 → Prop :=
  Relation.ReflTransGen fun a b => b ∈ w.spendersOf a

/-- An output is not spent if all that spend it are given up. -/
lemma isSpent_of_givenUp {chain : List CBlock} {outpoint : COutPoint}
    (h : ∀ spend ∈ w.mapTxSpends, spend.1 = outpoint → w.GivenUp hashes chain spend.2) :
    w.isSpent hashes chain outpoint = false := by
  refine any_eq_false.mpr fun spend hmem hspent => ?_
  rw [Bool.and_eq_true, beq_iff_eq] at hspent
  obtain ⟨dirty, hentry, hup⟩ := h spend hmem hspent.1
  obtain ⟨wtx, hlookup, rfl⟩ := Option.map_eq_some_iff.mp hentry
  have hdepth := hspent.2
  change wtx.isAbandoned = true ∨ wtx.getDepthInMainChain hashes chain < 0 at hup
  have habandoned : wtx.isAbandoned = true → wtx.getDepthInMainChain hashes chain = 0 := fun h =>
    if_pos (Bool.or_eq_true_iff.mpr (.inr h))
  grind

/-! ## The traversal -/

/-- A visit gives up the transaction; it leads on only from the first one. -/
lemma abandonVisit_eq (hashTx : Uint256) (hnow : w.Unconfirmed hashes sur now) :
    ∃ w' next, abandonVisit hashes sur hashTx now w = some (w', next) ∧
      w'.mapTxSpends = w.mapTxSpends ∧ w'.GivenUp hashes sur.chain now ∧
      w'.Unconfirmed hashes sur now ∧ (∀ t ≠ now, w'.entry t = w.entry t) ∧
      (next = w.spendersFrom hashTx now ∨ w.GivenUp hashes sur.chain now ∧ next = []) := by
  obtain ⟨dirty, hentry, hdepth, hpool⟩ := hnow
  obtain ⟨wtx, hlookup, rfl⟩ := Option.map_eq_some_iff.mp hentry
  change wtx.getDepthInMainChain hashes sur.chain ≤ 0 at hdepth
  change sur.inMempool (wtx.tx.getHash hashes) = false at hpool
  simp only [abandonVisit, hlookup, if_neg (not_lt.mpr hdepth)]
  split_ifs with hactive hin
  · simp [hpool] at hin
  · have hsame := fun w t => markInputsDirty_same w wtx.tx.vin t
    have hmarked (wtx' : CWalletTx) :
        ((w.set now wtx').markInputsDirty wtx.tx.vin).entry now = some wtx'.markDirty := by
      rw [(hsame _ now).1, entry_set, if_pos rfl]
    refine ⟨_, _, rfl, (hsame _ now).2, ⟨_, hmarked _, .inl rfl⟩,
      ⟨_, hmarked _, le_of_eq rfl, hpool⟩, fun t ht => ?_, .inl rfl⟩
    rw [(hsame _ t).1, entry_set, if_neg ht]
  · have hup : w.GivenUp hashes sur.chain now := by
      refine ⟨_, hentry, ?_⟩
      by_cases hzero : wtx.getDepthInMainChain hashes sur.chain = 0
      · exact .inl (show wtx.isAbandoned = true by simpa [hzero] using hactive)
      · exact .inr (lt_of_le_of_ne hdepth hzero)
    exact ⟨w, [], rfl, rfl, hup, ⟨_, hentry, hdepth, hpool⟩, fun _ _ => rfl, .inr ⟨hup, rfl⟩⟩

lemma memoryLe_antisymm {a b : Uint256} (hab : memoryLe a b) (hba : memoryLe b a) : a = b := by
  have hbytes : writeUInt256 a = writeUInt256 b := List.le_antisymm hab hba
  have hread := (readUInt256_reads a []).symm.trans (hbytes ▸ readUInt256_reads b [])
  exact congrArg Prod.fst (Option.some.inj hread)

/-- From a spender of the first transaction the loop does not go on. -/
lemma spendersFrom_spender (hspends : now ∈ w.spendersOf hashTx) (hne : now ≠ hashTx) :
    w.spendersFrom hashTx now = [] := by
  refine if_neg fun ⟨hle, hall⟩ => hne (memoryLe_antisymm ?_ hle)
  obtain ⟨spend, hmem, -⟩ := mem_map.mp hspends
  obtain ⟨hspend, hhash⟩ := mem_filter.mp hmem
  obtain rfl : spend.1.hash = hashTx := by simpa using hhash
  exact hall spend hspend (List.le_refl _)

/-- What has been done to a wallet when some transactions have been visited. -/
structure Visited (hashes : Hashes) (sur : Surroundings) (w : CWallet) (done : List Uint256)
    (s : CWallet) : Prop where
  spends : s.mapTxSpends = w.mapTxSpends
  unconfirmed : ∀ t, w.Unconfirmed hashes sur t → s.Unconfirmed hashes sur t
  givenUp : ∀ t ∈ done, s.GivenUp hashes sur.chain t
  same : ∀ t ∉ done, s.entry t = w.entry t

lemma Visited.visit {done : List Uint256} {s : CWallet} (h : Visited hashes sur w done s)
    (hashTx : Uint256) (hnow : w.Unconfirmed hashes sur now) : ∃ s' next,
      abandonVisit hashes sur hashTx now s = some (s', next) ∧
        Visited hashes sur w (now :: done) s' ∧
        (next = w.spendersFrom hashTx now ∨ s.GivenUp hashes sur.chain now ∧ next = []) := by
  obtain ⟨s', next, hvisit, hspends, hup, hstill, hsame, hnext⟩ :=
    abandonVisit_eq hashTx (h.unconfirmed now hnow)
  refine ⟨s', next, hvisit, ⟨hspends.trans h.spends, fun t ht => ?_, fun t ht => ?_,
    fun t ht => ?_⟩, ?_⟩
  · by_cases heq : t = now
    · exact heq ▸ hstill
    · rw [Unconfirmed, hsame t heq]
      exact h.unconfirmed t ht
  · by_cases heq : t = now
    · exact heq ▸ hup
    · rw [GivenUp, hsame t heq]
      exact h.givenUp t ((mem_cons.mp ht).resolve_left heq)
  · rw [mem_cons, not_or] at ht
    rw [hsame t ht.1, h.same t ht.2]
  · rwa [spendersFrom, spendersOf, h.spends] at hnext

/-- The transaction and all that depend on it are unconfirmed, and what depends on a transaction
that was given up was given up before. -/
structure Abandonable (hashes : Hashes) (sur : Surroundings) (w : CWallet) (hashTx : Uint256) :
    Prop where
  unconfirmed : ∀ t, w.Descends hashTx t → w.Unconfirmed hashes sur t
  closed : ∀ a b, w.GivenUp hashes sur.chain a → b ∈ w.spendersOf a → w.GivenUp hashes sur.chain b

/-- The traversal visits the transaction and, unless it was given up before, its spenders. -/
lemma abandonTransaction_visits (h : w.Abandonable hashes sur hashTx) :
    ∃ w' done, w.abandonTransaction hashes sur hashTx = some (true, w') ∧
      Visited hashes sur w done w' ∧
      (∀ t ∈ done, t = hashTx ∨ t ∈ w.spendersOf hashTx) ∧ hashTx ∈ done ∧
      ∀ t ∈ w.spendersOf hashTx, t ∈ done ∨ w.GivenUp hashes sur.chain t := by
  have hfirst := h.unconfirmed hashTx .refl
  have hstart : Visited hashes sur w [] w := ⟨rfl, fun _ => id, by simp, fun _ _ => rfl⟩
  obtain ⟨w₁, next, hvisit, hvisited, hnext⟩ := hstart.visit hashTx hfirst
  obtain ⟨dirty, hentry, hdepth, hpool⟩ := hfirst
  obtain ⟨wtx, hlookup, rfl⟩ := Option.map_eq_some_iff.mp hentry
  have hrefuse : ¬(0 < wtx.getDepthInMainChain hashes sur.chain ∨
      sur.inMempool (wtx.tx.getHash hashes) = true) := by
    rintro (hpos | hin)
    · exact absurd hdepth (not_le.mpr hpos)
    · exact Bool.false_ne_true (hpool.symm.trans hin)
  simp only [abandonTransaction, hlookup, if_neg hrefuse, traversalFuel, Worklist.run, hvisit]
  rcases hnext with rfl | ⟨hup, rfl⟩
  · have hself : w.spendersFrom hashTx hashTx = w.spendersOf hashTx :=
      if_pos ⟨List.le_refl _, fun _ _ h => h⟩
    rw [hself]
    have hmem (t : Uint256) (ht : t ∈ Worklist.push memoryLe [hashTx] [] (w.spendersOf hashTx)) :
        t ∈ w.spendersOf hashTx ∧ t ≠ hashTx := by
      simpa [Worklist.mem_push] using ht
    have hflat {a : Uint256} {done : List Uint256} {s : CWallet}
        (ha : a ∈ w.spendersOf hashTx ∧ a ≠ hashTx) (hs : Visited hashes sur w done s) :
        ∃ s', abandonVisit hashes sur hashTx a s = some (s', []) ∧
          Visited hashes sur w (a :: done) s' := by
      obtain ⟨s', next, hvisit, hvisited, hnext⟩ :=
        hs.visit hashTx (h.unconfirmed a (.single ha.1))
      have hnil : next = [] :=
        hnext.elim (fun hn => hn.trans (spendersFrom_spender ha.1 ha.2)) And.right
      exact ⟨s', hnil ▸ hvisit, hvisited⟩
    have hlength : (w.spendersOf hashTx).length ≤ w.mapTxSpends.length := by
      rw [spendersOf, length_map]
      exact length_filter_le _ _
    obtain ⟨w', hrun, hvisited'⟩ := Worklist.run_flat (r := memoryLe) hflat hmem
      ((Worklist.length_push_le _ _ _).trans (by simpa using hlength)) hvisited
    refine ⟨w', _, by rw [hrun]; rfl, hvisited', fun t ht => ?_, by simp, fun t ht => .inl ?_⟩
    · rcases mem_append.mp ht with ht | ht
      · exact .inr (hmem t (mem_reverse.mp ht)).1
      · exact .inl (mem_singleton.mp ht)
    · by_cases heq : t = hashTx <;> simp [Worklist.mem_push, ht, heq]
  · refine ⟨w₁, [hashTx], by cases w.mapTxSpends.length <;> rfl, hvisited, by simp, by simp,
      fun t ht => .inr (h.closed hashTx t hup ht)⟩

/-- All that depends on the transaction is given up just when each of them was before or spends the
transaction itself. Outputs that only given up transactions spend are available. -/
theorem abandonTransaction_iff (h : w.Abandonable hashes sur hashTx) :
    ∃ w', w.abandonTransaction hashes sur hashTx = some (true, w') ∧
      ((∀ t, w.Descends hashTx t → w'.GivenUp hashes sur.chain t) ↔
        ∀ t, w.Descends hashTx t →
          w.GivenUp hashes sur.chain t ∨ t = hashTx ∨ t ∈ w.spendersOf hashTx) ∧
      ∀ outpoint, (∀ spend ∈ w.mapTxSpends, spend.1 = outpoint →
          w'.GivenUp hashes sur.chain spend.2) → w'.isSpent hashes sur.chain outpoint = false := by
  obtain ⟨w', done, habandon, hvisited, honly, hfirst, hspenders⟩ := abandonTransaction_visits h
  have hleft (t : Uint256) (ht : t ∉ done) :
      w'.GivenUp hashes sur.chain t ↔ w.GivenUp hashes sur.chain t := by
    rw [GivenUp, GivenUp, hvisited.same t ht]
  refine ⟨w', habandon, ⟨fun hall t ht => ?_, fun hall t ht => ?_⟩,
    fun _ hall => isSpent_of_givenUp (hvisited.spends ▸ hall)⟩ <;> by_cases hdone : t ∈ done
  · exact .inr (honly t hdone)
  · exact .inl ((hleft t hdone).mp (hall t ht))
  · exact hvisited.givenUp t hdone
  · rw [hleft t hdone]
    rcases hall t ht with hup | rfl | hspends
    · exact hup
    · exact absurd hfirst hdone
    · exact (hspenders t hspends).resolve_left hdone

/-! ## Payments in a chain -/

def toyHashes :
    Hashes := ⟨fun bytes => BitVec.ofNat 256 (bytes.reverse[3]?.getD 0).toNat, fun _ => 0⟩

def toyPayments : Nat → CWallet
  | 0 => .empty
  | n + 1 => (toyPayments n).addToWallet toyHashes
    { tx := ⟨1, 0, [⟨⟨BitVec.ofNat 256 n, 0⟩, [], 0⟩], [], (n + 1).toUInt32⟩ }

def toyOffline : Surroundings := ⟨[], fun _ => false, 0⟩

lemma toyPayments_abandonable {n : Nat} {l : List Uint256} (hfirst : 1 ∈ l)
    (hclosed : l.all fun a => ((toyPayments n).spendersOf a).all (· ∈ l))
    (hentry : l.all fun a => ((toyPayments n).entry a).isSome)
    (hnew : (toyPayments n).mapWallet.entries.all fun e => !e.2.isAbandoned) :
    (∀ t, (toyPayments n).Descends 1 t → t ∈ l) ∧
      (toyPayments n).Abandonable toyHashes toyOffline 1 := by
  have hdepth (wtx : CWalletTx) : wtx.getDepthInMainChain toyHashes [] = 0 := ite_self 0
  have hmem (t : Uint256) (ht : (toyPayments n).Descends 1 t) : t ∈ l := by
    induction ht with
    | refl => exact hfirst
    | tail _ hspends ih =>
      simpa using all_eq_true.mp (all_eq_true.mp hclosed _ ih) _ hspends
  refine ⟨hmem, fun t ht => ?_, fun a b hup => ?_⟩
  · obtain ⟨wtx, hwtx⟩ := Option.isSome_iff_exists.mp (all_eq_true.mp hentry t (hmem t ht))
    exact ⟨wtx, hwtx, (hdepth wtx).le, rfl⟩
  · obtain ⟨dirty, hdirty, hup⟩ := hup
    obtain ⟨wtx, hlookup, rfl⟩ := Option.map_eq_some_iff.mp hdirty
    have hold := all_eq_true.mp hnew _ (AList.mem_lookup_iff.mp hlookup)
    rw [Bool.not_eq_true'] at hold
    rcases hup with hup | hup
    · exact absurd (hold.symm.trans hup) Bool.false_ne_true
    · exact absurd (hdepth _) hup.ne

theorem abandonTransaction_iff_pair :
    (toyPayments 2).Abandonable toyHashes toyOffline 1 ∧
      ∃ w', (toyPayments 2).abandonTransaction toyHashes toyOffline 1 = some (true, w') ∧
        ∀ t, (toyPayments 2).Descends 1 t → w'.GivenUp toyHashes [] t := by
  obtain ⟨hmem, h⟩ := toyPayments_abandonable (n := 2) (l := [1, 2]) (by decide)
    (by decide +kernel) (by decide +kernel) (by decide +kernel)
  obtain ⟨w', habandon, hiff, -⟩ := abandonTransaction_iff h
  refine ⟨h, w', habandon, hiff.mpr fun t ht => .inr ?_⟩
  have hspender : 2 ∈ (toyPayments 2).spendersOf 1 := by decide +kernel
  rcases mem_pair.mp (hmem t ht) with rfl | rfl
  · exact .inl rfl
  · exact .inr hspender

/-- The payment of the child is neither abandoned nor conflicted, and its input stays spent. -/
theorem abandonTransaction_grandchild :
    (toyPayments 3).Abandonable toyHashes toyOffline 1 ∧ (toyPayments 3).Descends 1 3 ∧
      ∃ w', (toyPayments 3).abandonTransaction toyHashes toyOffline 1 = some (true, w') ∧
        ¬w'.GivenUp toyHashes [] 3 ∧ w'.isSpent toyHashes [] ⟨2, 0⟩ = true := by
  have hspends : 2 ∈ (toyPayments 3).spendersOf 1 ∧ 3 ∈ (toyPayments 3).spendersOf 2 := by
    decide +kernel
  refine ⟨(toyPayments_abandonable (l := [1, 2, 3]) (by decide) (by decide +kernel)
    (by decide +kernel) (by decide +kernel)).2, .tail (.single hspends.1) hspends.2, ?_⟩
  have hrun : (((toyPayments 3).abandonTransaction toyHashes toyOffline 1).any fun r => r.1 &&
      (r.2.isSpent toyHashes [] ⟨2, 0⟩ && r.2.mapTxSpends.all fun spend =>
        spend.1 != ⟨2, 0⟩ || spend.2 == 3)) = true := by
    decide +kernel
  obtain ⟨⟨_, w'⟩, habandon, hend⟩ := (Option.any_eq_true _ _).mp hrun
  simp only [Bool.and_eq_true, all_eq_true] at hend
  obtain ⟨rfl, hspent, honly⟩ := hend
  refine ⟨w', habandon, fun hup => ?_, hspent⟩
  refine absurd (isSpent_of_givenUp fun spend hmem hspend => ?_) (ne_false_of_eq_true hspent)
  have hthree := honly spend hmem
  simp only [hspend, bne_self_eq_false, Bool.false_or, beq_iff_eq] at hthree
  exact hthree ▸ hup

end CWallet

end Jumpcoin
