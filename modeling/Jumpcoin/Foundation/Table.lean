import Mathlib.Data.List.Nodup
import Mathlib.Tactic

/-!
# Tables

A finite collection of entries in which no two have the same key: a map whose keys are read off its
values. The operations are those of an associative container; inserting an entry whose key is taken
changes nothing.
-/

/-- Entries with different keys. -/
structure Table {κ α : Type*} (key : α → κ) where
  entries : List α
  nodup : (entries.map key).Nodup

namespace Table

variable {κ α : Type*} [DecidableEq κ] {key : α → κ}

def empty : Table key := ⟨[], List.nodup_nil⟩

def find? (t : Table key) (k : κ) : Option α :=
  t.entries.find? fun a => key a = k

def contains (t : Table key) (k : κ) : Bool :=
  t.entries.any fun a => key a = k

def insert (t : Table key) (a : α) : Table key :=
  if h : key a ∈ t.entries.map key then t else ⟨a :: t.entries, List.nodup_cons.mpr ⟨h, t.nodup⟩⟩

def modify (t : Table key) (f : α → α) (hf : ∀ a, key (f a) = key a) : Table key :=
  ⟨t.entries.map f, by
    rw [List.map_map, show key ∘ f = key from funext hf]
    exact t.nodup⟩

def erase (t : Table key) (k : κ) : Table key :=
  ⟨t.entries.filter fun a => key a ≠ k, t.nodup.sublist ((List.filter_sublist).map key)⟩

variable {t : Table key} {a b : α} {k : κ}

omit [DecidableEq κ] in
lemma eq_of_key_eq (ha : a ∈ t.entries) (hb : b ∈ t.entries) (h : key a = key b) : a = b :=
  List.inj_on_of_nodup_map t.nodup ha hb h

lemma find?_eq_some_iff : t.find? k = some a ↔ a ∈ t.entries ∧ key a = k := by
  constructor
  · intro h
    exact ⟨List.mem_of_find?_eq_some h, by simpa using List.find?_some h⟩
  · rintro ⟨ha, rfl⟩
    cases hfind : t.find? (key a) with
    | none => exact absurd ha (by simpa using List.find?_eq_none.mp hfind a)
    | some b =>
      have hb : key b = key a := by simpa using List.find?_some hfind
      rw [eq_of_key_eq ha (List.mem_of_find?_eq_some hfind) hb.symm]

lemma contains_eq_true_iff : t.contains k = true ↔ ∃ a ∈ t.entries, key a = k := by
  simp [contains]

lemma entries_insert (h : t.contains (key a) = false) : (t.insert a).entries = a :: t.entries := by
  have hnot : key a ∉ t.entries.map key := by
    intro hmem
    obtain ⟨b, hb, hkey⟩ := List.mem_map.mp hmem
    exact Bool.false_ne_true (h.symm.trans (contains_eq_true_iff.mpr ⟨b, hb, hkey⟩))
  rw [insert, dif_neg hnot]

end Table
