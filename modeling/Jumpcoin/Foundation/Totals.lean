import Mathlib.Data.Finmap
import Mathlib.Tactic

/-!
# Totals

The total of a finite map is the sum of a measure over its entries, which an insertion or a deletion
changes by the entry it touches. A map that is written entry by entry ends, at each key, with what
the entry for that key makes of what it had.
-/

namespace Jumpcoin

open Finmap

lemma lookup_insert_cases {κ β : Type} [DecidableEq κ] {m : Finmap fun _ : κ => β} {k k' : κ}
    {b b' : β} (h : (m.insert k b).lookup k' = some b') :
    (k' = k ∧ b' = b) ∨ (k' ≠ k ∧ m.lookup k' = some b') := by
  by_cases heq : k' = k
  · subst heq
    rw [lookup_insert, Option.some.injEq] at h
    exact .inl ⟨rfl, h.symm⟩
  · rw [lookup_insert_of_ne _ heq] at h
    exact .inr ⟨heq, h⟩

/-! ## The total of a finite map -/

namespace MapTotal

variable {κ β : Type} [DecidableEq κ] (f : β → Nat)

def total (m : Finmap fun _ : κ => β) : Nat :=
  (m.entries.map fun entry => f entry.2).sum

def measureAt (m : Finmap fun _ : κ => β) (k : κ) : Nat :=
  ((m.lookup k).map f).getD 0

variable {f} {m : Finmap fun _ : κ => β} {k : κ} {b : β}

lemma insert_erase_self (m : Finmap fun _ : κ => β) (k : κ) (b : β) :
    (m.erase k).insert k b = m.insert k b := by
  refine ext_lookup fun k' => ?_
  by_cases hne : k' = k
  · rw [hne, lookup_insert, lookup_insert]
  · rw [lookup_insert_of_ne _ hne, lookup_insert_of_ne _ hne,
      lookup_erase_ne hne]

lemma insert_of_lookup (h : m.lookup k = some b) : m.insert k b = m := by
  refine ext_lookup fun k' => ?_
  by_cases hne : k' = k
  · rw [hne, lookup_insert, h]
  · rw [lookup_insert_of_ne _ hne]

lemma total_insert_eq : total f (m.insert k b) = f b + total f (m.erase k) := by
  rw [← insert_erase_self, total, total, entries_insert_of_notMem notMem_erase_self,
    Multiset.map_cons, Multiset.sum_cons]

lemma total_erase : total f (m.erase k) + measureAt f m k = total f m := by
  unfold measureAt
  cases hk : m.lookup k with
  | some b =>
    have hins := total_insert_eq (f := f) (m := m) (k := k) (b := b)
    rw [insert_of_lookup hk] at hins
    simp only [Option.map_some, Option.getD_some]
    omega
  | none =>
    have herase : m.erase k = m := by
      refine ext_lookup fun k' => ?_
      by_cases hne : k' = k
      · rw [hne, lookup_erase, hk]
      · rw [lookup_erase_ne hne]
    simp [herase]

lemma total_insert : total f (m.insert k b) + measureAt f m k = total f m + f b := by
  have hins := total_insert_eq (f := f) (m := m) (k := k) (b := b)
  have herase := total_erase (f := f) (m := m) (k := k)
  omega

end MapTotal

/-! ## Entries written one by one -/

section Written

variable {κ ε β σ : Type} (look : σ → κ → Option β) {write : σ → κ × ε → σ} {entries : List (κ × ε)}

lemma lookup_foldl_of_notMem
    (hother : ∀ s entry k, k ≠ entry.1 → look (write s entry) k = look s k) {s : σ} {k : κ}
    (hk : k ∉ entries.map Prod.fst) : look (entries.foldl write s) k = look s k := by
  induction entries generalizing s with
  | nil => rfl
  | cons entry entries ih =>
    rw [List.map_cons, List.mem_cons, not_or] at hk
    rw [List.foldl_cons, ih hk.2, hother s entry k hk.1]

/-- If every key is written once, it ends with what the entry for it makes of what it had. -/
lemma lookup_foldl_of_mem {f : ε → Option β → Option β}
    (hself : ∀ s k e, look (write s (k, e)) k = f e (look s k))
    (hother : ∀ s entry k, k ≠ entry.1 → look (write s entry) k = look s k) {s : σ} {k : κ} {e : ε}
    (hnodup : (entries.map Prod.fst).Nodup) (hmem : (k, e) ∈ entries) :
    look (entries.foldl write s) k = f e (look s k) := by
  induction entries generalizing s with
  | nil => cases hmem
  | cons entry entries ih =>
    rw [List.map_cons, List.nodup_cons] at hnodup
    rw [List.foldl_cons]
    rcases List.mem_cons.mp hmem with rfl | hmem
    · rw [lookup_foldl_of_notMem look hother hnodup.1, hself]
    · have hne : k ≠ entry.1 := by
        rintro rfl
        exact hnodup.1 (List.mem_map.mpr ⟨_, hmem, rfl⟩)
      rw [ih hnodup.2 hmem, hother s entry k hne]

end Written

end Jumpcoin
