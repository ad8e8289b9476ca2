import Mathlib.Data.List.Nodup
import Mathlib.Tactic

/-!
# Vectors whose elements know their positions

A vector of references to the elements of a collection in which every element stores the position of
its reference. This makes it possible to pick an element at random and to remove one without a
search: the last reference takes the place of the removed one, and its element stores the new
position.

## Main definitions

* `Indexed xs live pos`: the vector `xs` lists exactly the elements with `live`, each at the
  position `pos` that it stores.
* `swapRemove`, `swap`: the operations; each keeps a vector indexed, if the positions are updated as
  the rules `Indexed.swapRemove` and `Indexed.swap` say.
-/

namespace BackIndex

variable {α : Type*}

/-- The references are those of the live elements, each at the position the element stores. -/
def Indexed (xs : List α) (live : α → Prop) (pos : α → Nat) : Prop :=
  ∀ i a, xs[i]? = some a ↔ live a ∧ pos a = i

/-- The last element takes the place of the one at position `i`. -/
def swapRemove (xs : List α) (i : Nat) : List α :=
  match xs.getLast? with
  | none => []
  | some b => (xs.set i b).dropLast

def swap (xs : List α) (i j : Nat) : List α :=
  match xs[i]?, xs[j]? with
  | some a, some b => (xs.set i b).set j a
  | _, _ => xs

variable {xs : List α} {live live' : α → Prop} {pos pos' : α → Nat} {a b : α}

lemma indexed_nil (h : ∀ a, ¬live a) : Indexed [] live pos := by
  intro i a
  simp [h a]

namespace Indexed

variable (h : Indexed xs live pos)
include h

lemma getElem?_pos (ha : live a) : xs[pos a]? = some a :=
  (h (pos a) a).mpr ⟨ha, rfl⟩

lemma mem_iff : a ∈ xs ↔ live a := by
  rw [List.mem_iff_getElem?]
  exact ⟨fun ⟨i, hi⟩ => ((h i a).mp hi).1, fun ha => ⟨_, h.getElem?_pos ha⟩⟩

lemma pos_lt (ha : live a) : pos a < xs.length :=
  (List.getElem?_eq_some_iff.mp (h.getElem?_pos ha)).1

lemma nodup : xs.Nodup := by
  rw [List.nodup_iff_getElem?_ne_getElem?]
  intro i j hij hj heq
  rw [List.getElem?_eq_getElem hj] at heq
  have hi := ((h i _).mp heq).2
  have hj := ((h j _).mp (List.getElem?_eq_getElem hj)).2
  omega

lemma congr (hlive : ∀ a, live' a ↔ live a)
    (hpos : ∀ a, live a → pos' a = pos a) : Indexed xs live' pos' := by
  intro i a
  rw [h i a, hlive]
  exact and_congr_right fun ha => by rw [hpos a ha]

lemma push (ha : ¬live a) (hlive : ∀ c, live' c ↔ live c ∨ c = a)
    (hold : ∀ c, live c → pos' c = pos c) (hnew : pos' a = xs.length) :
    Indexed (xs ++ [a]) live' pos' := by
  intro i c
  by_cases hc : c = a
  · subst hc
    have hout : c ∉ xs := fun hmem => ha (h.mem_iff.mp hmem)
    rw [hlive, hnew, List.getElem?_append]
    split_ifs with hi
    · have hne : xs[i]? ≠ some c := fun heq => hout (List.mem_of_getElem? heq)
      simp only [hne, false_iff]
      omega
    · rw [List.getElem?_singleton]
      simp only [or_true, true_and]
      split_ifs with hzero
      · simp only [true_iff]
        omega
      · simp only [false_iff]
        omega
  · rw [hlive, List.getElem?_append]
    simp only [hc, or_false]
    split_ifs with hi
    · rw [h i c]
      exact and_congr_right fun hl => by rw [hold c hl]
    · have hlong : ¬(live c ∧ pos' c = i) := by
        rintro ⟨hl, rfl⟩
        exact hi (hold c hl ▸ h.pos_lt hl)
      simp only [hlong, iff_false, List.getElem?_singleton]
      split_ifs with hzero
      · simpa using Ne.symm hc
      · simp

/-- The element `a` is removed and the last one, `b`, put into its place. -/
lemma swapRemove (ha : live a) (hb : xs.getLast? = some b) (hlive : ∀ c, live' c ↔ live c ∧ c ≠ a)
    (hlast : b ≠ a → pos' b = pos a) (hrest : ∀ c, live c → c ≠ a → c ≠ b → pos' c = pos c) :
    Indexed (BackIndex.swapRemove xs (pos a)) live' pos' := by
  have hlen := h.pos_lt ha
  rw [List.getLast?_eq_getElem?] at hb
  obtain ⟨hbl, hbp⟩ := (h _ _).mp hb
  intro i c
  have hget : (BackIndex.swapRemove xs (pos a))[i]? =
      if i < xs.length - 1 then (if pos a = i then some b else xs[i]?) else none := by
    rw [BackIndex.swapRemove, List.getLast?_eq_getElem?, hb]
    simp only [List.getElem?_dropLast, List.length_set, List.getElem?_set, hlen, if_true]
  have hai := h i a
  by_cases hcb : c = b <;> by_cases hca : c = a <;> grind [Indexed]

lemma pop (ha : xs.getLast? = some a) (hlive : ∀ c, live' c ↔ live c ∧ c ≠ a)
    (hrest : ∀ c, live c → c ≠ a → pos' c = pos c) : Indexed xs.dropLast live' pos' := by
  intro i c
  have hci := h i c
  have hai := h (xs.length - 1) a
  grind

/-- Two elements, not necessarily different, change places. -/
lemma swap (ha : live a) (hb : live b) (hposa : pos' a = pos b)
    (hposb : pos' b = pos a) (hrest : ∀ c, live c → c ≠ a → c ≠ b → pos' c = pos c) :
    Indexed (BackIndex.swap xs (pos a) (pos b)) live pos' := by
  intro i c
  have hget : (BackIndex.swap xs (pos a) (pos b))[i]? =
      if pos b = i then some a else if pos a = i then some b else xs[i]? := by
    rw [BackIndex.swap, h.getElem?_pos ha, h.getElem?_pos hb]
    simp only [List.getElem?_set, List.length_set, h.pos_lt ha, h.pos_lt hb, if_true]
  have hai := h i a
  have hbi := h i b
  rw [hget]
  by_cases hcb : c = b <;> by_cases hca : c = a <;> grind [Indexed]

end Indexed

end BackIndex
