import Mathlib.Data.List.Nodup
import Mathlib.Order.Basic
import Mathlib.Tactic

/-!
# Ordered maps

A finite map as the list of its entries in increasing order of the keys, which is the order in which
they are visited. Changes are described by what is found afterwards (`find?_set`, `find?_modify`,
`find?_erase`) and by the entries up to their order (`perm_erase`, `perm_modify`, `perm_set`), from
which numbers of entries follow.
-/

/-- Entries with strictly increasing keys. -/
structure OrderedMap (κ α : Type*) [LinearOrder κ] where
  entries : List (κ × α)
  sorted : entries.Pairwise (·.1 < ·.1)

namespace OrderedMap

variable {κ α : Type*} [LinearOrder κ] {es : List (κ × α)}

def empty : OrderedMap κ α := ⟨[], .nil⟩

def find? (m : OrderedMap κ α) (k : κ) : Option α :=
  (m.entries.find? fun e => e.1 = k).map Prod.snd

/-- The entry of a key is overwritten, or entered at its place. -/
def insertEntry (k : κ) (a : α) : List (κ × α) → List (κ × α)
  | [] => [(k, a)]
  | e :: rest =>
    if k < e.1 then (k, a) :: e :: rest
    else if k = e.1 then (k, a) :: rest
    else e :: insertEntry k a rest

lemma mem_insertEntry {k : κ} {a : α} {e : κ × α} (hsorted : es.Pairwise (·.1 < ·.1)) :
    e ∈ insertEntry k a es ↔ e = (k, a) ∨ e ∈ es ∧ e.1 ≠ k := by
  induction es with
  | nil => simp [insertEntry]
  | cons e' rest ih =>
    rw [List.pairwise_cons] at hsorted
    rw [insertEntry]
    split_ifs with hlt heq <;> grind

lemma pairwise_insertEntry {k : κ} {a : α}
    (h : es.Pairwise (·.1 < ·.1)) : (insertEntry k a es).Pairwise (·.1 < ·.1) := by
  induction es with
  | nil => simp [insertEntry]
  | cons e rest ih =>
    rw [List.pairwise_cons] at h
    rw [insertEntry]
    split_ifs with hlt heq
    · exact .cons (by grind) (.cons h.1 h.2)
    · exact .cons (by grind) h.2
    · refine .cons (fun e' he' => ?_) (ih h.2)
      rcases (mem_insertEntry h.2).mp he' with rfl | ⟨he', -⟩
      · exact lt_of_le_of_ne (not_lt.mp hlt) (Ne.symm heq)
      · exact h.1 e' he'

section

variable (m : OrderedMap κ α)

def set (k : κ) (a : α) : OrderedMap κ α :=
  ⟨insertEntry k a m.entries, pairwise_insertEntry m.sorted⟩

def modify (k : κ) (f : α → α) : OrderedMap κ α :=
  ⟨m.entries.map fun e => if e.1 = k then (e.1, f e.2) else e, by
    refine List.pairwise_map.mpr (m.sorted.imp fun hlt => ?_)
    split_ifs <;> exact hlt⟩

def erase (k : κ) : OrderedMap κ α :=
  ⟨m.entries.filter fun e => e.1 ≠ k, m.sorted.filter _⟩

def count (p : α → Bool) : Nat := m.entries.countP fun e => p e.2

end

variable {m : OrderedMap κ α} {k j : κ} {a b : α} {f : α → α} {p : α → Bool} {m' : OrderedMap κ α}

lemma nodup_keys (m : OrderedMap κ α) : (m.entries.map Prod.fst).Nodup :=
  List.pairwise_map.mpr (m.sorted.imp fun hlt => hlt.ne)

lemma eq_of_mem (ha : (k, a) ∈ m.entries) (hb : (k, b) ∈ m.entries) : a = b :=
  congrArg Prod.snd (List.inj_on_of_nodup_map m.nodup_keys ha hb rfl)

lemma find?_eq_some_iff : m.find? k = some a ↔ (k, a) ∈ m.entries := by
  constructor
  · intro h
    obtain ⟨⟨k', a'⟩, hfind, rfl⟩ := Option.map_eq_some_iff.mp h
    obtain rfl : k' = k := by simpa using List.find?_some hfind
    exact List.mem_of_find?_eq_some hfind
  · intro h
    cases hfind : m.entries.find? fun e => e.1 = k with
    | none => simpa using List.find?_eq_none.mp hfind _ h
    | some e =>
      obtain ⟨k', a'⟩ := e
      obtain rfl : k' = k := by simpa using List.find?_some hfind
      rw [find?, hfind, eq_of_mem h (List.mem_of_find?_eq_some hfind)]
      rfl

lemma ext_find? {o : Option α} (h : ∀ a, m.find? k = some a ↔ o = some a) : m.find? k = o :=
  Option.ext h

@[simp] lemma find?_empty : (empty : OrderedMap κ α).find? k = none := rfl

@[simp] lemma find?_set : (m.set k a).find? j = if j = k then some a else m.find? j := by
  refine ext_find? fun b => ?_
  rw [find?_eq_some_iff, set, mem_insertEntry m.sorted]
  split_ifs with h
  · simp [h, eq_comm]
  · simp [h, find?_eq_some_iff]

@[simp] lemma find?_modify :
    (m.modify k f).find? j = if j = k then (m.find? j).map f else m.find? j := by
  have hfst (e : κ × α) : ((if e.1 = k then (e.1, f e.2) else e).1 = j) = (e.1 = j) := by
    split_ifs <;> rfl
  rw [find?, modify, List.find?_map]
  simp only [Function.comp_def, hfst, Option.map_map]
  rw [find?]
  cases hfind : m.entries.find? fun e => e.1 = j with
  | none => simp
  | some e =>
    obtain rfl : e.1 = j := by simpa using List.find?_some hfind
    by_cases h : e.1 = k <;> simp [h]

@[simp] lemma find?_erase : (m.erase k).find? j = if j = k then none else m.find? j := by
  refine ext_find? fun b => ?_
  rw [find?_eq_some_iff]
  simp only [erase, List.mem_filter]
  split_ifs with h
  · simp [h]
  · simp [h, find?_eq_some_iff]

/-- A map is what is found in it. -/
lemma ext_of_find?_eq (h : ∀ k, m'.find? k = m.find? k) : m' = m := by
  obtain ⟨entries, hsorted⟩ := m
  obtain ⟨entries', hsorted'⟩ := m'
  congr 1
  have hperm : entries'.Perm entries := by
    refine (List.perm_ext_iff_of_nodup (nodup_keys ⟨entries', hsorted'⟩).of_map
      (nodup_keys ⟨entries, hsorted⟩).of_map).mpr fun e => ?_
    have := h e.1
    rw [Option.ext_iff] at this
    simpa [find?_eq_some_iff] using this e.2
  exact hperm.eq_of_pairwise (fun e e' _ _ h₁ h₂ => (lt_asymm h₁ h₂).elim) hsorted' hsorted

lemma modify_set : (m.set k a).modify k f = m.set k (f a) := by
  apply ext_of_find?_eq
  intro j
  simp only [find?_modify, find?_set]
  split_ifs <;> rfl

/-! ## The entries up to their order -/

/-- Maps that differ in one key, which one of them does not have. -/
lemma perm_cons (hk : m.find? k = none)
    (h : ∀ j, m'.find? j = if j = k then some a else m.find? j) :
    m'.entries.Perm ((k, a) :: m.entries) := by
  have hnot : (k, a) ∉ m.entries := by
    rw [← find?_eq_some_iff, hk]
    simp
  refine (List.perm_ext_iff_of_nodup m'.nodup_keys.of_map
    (List.nodup_cons.mpr ⟨hnot, m.nodup_keys.of_map⟩)).mpr fun e => ?_
  obtain ⟨j, b⟩ := e
  rw [← find?_eq_some_iff, h, List.mem_cons, ← find?_eq_some_iff]
  split_ifs with hj
  · subst hj
    simp [hk, eq_comm]
  · simp [hj]

lemma perm_erase (h : m.find? k = some a) : m.entries.Perm ((k, a) :: (m.erase k).entries) :=
  perm_cons (by simp) fun j => by split_ifs with hj <;> simp [hj, h]

lemma perm_modify (h : m.find? k = some a) :
    (m.modify k f).entries.Perm ((k, f a) :: (m.erase k).entries) :=
  perm_cons (by simp) fun j => by split_ifs with hj <;> simp [hj, h]

lemma perm_set (h : m.find? k = none) : (m.set k a).entries.Perm ((k, a) :: m.entries) :=
  perm_cons h fun _ => find?_set

/-! ## Numbers of entries -/

lemma count_erase (h : m.find? k = some a) : (m.erase k).count p + (p a).toNat = m.count p := by
  rw [count, count, (perm_erase h).countP_eq, List.countP_cons]
  cases p a <;> rfl

lemma count_modify (h : m.find? k = some a) :
    (m.modify k f).count p + (p a).toNat = m.count p + (p (f a)).toNat := by
  rw [← count_erase h, count, (perm_modify h).countP_eq, List.countP_cons, count]
  cases p (f a) <;> cases p a <;> simp

lemma count_modify_of_eq (h : ∀ a, p (f a) = p a) : (m.modify k f).count p = m.count p := by
  rw [count, modify, List.countP_map, count]
  refine List.countP_congr fun e _ => ?_
  simp only [Function.comp_apply]
  split_ifs <;> simp [h]

lemma count_set (h : m.find? k = none) : (m.set k a).count p = m.count p + (p a).toNat := by
  rw [count, (perm_set h).countP_eq, List.countP_cons, count]
  cases p a <;> rfl

end OrderedMap
