import Mathlib.Data.List.Perm.Basic
import Mathlib.Algebra.BigOperators.Group.List.Basic
import Mathlib.Tactic.Ring

/-!
# Sums of subsets

A subset of a list is given by one mark for each position.
-/

namespace Jumpcoin

open List

namespace Subset

variable {α : Type*}

def marked : List α → List Bool → List α
  | x :: xs, true :: marks => x :: marked xs marks
  | _ :: xs, false :: marks => marked xs marks
  | _, _ => []

lemma marked_sublist (xs : List α) (marks : List Bool) : (marked xs marks).Sublist xs := by
  fun_induction marked <;> grind

@[simp]
lemma marked_replicate_true (xs : List α) : marked xs (List.replicate xs.length true) = xs := by
  induction xs with
  | nil => rfl
  | cons x xs ih => simp [replicate_succ, marked, ih]

@[simp]
lemma marked_replicate_false (xs : List α) (n : Nat) : marked xs (List.replicate n false) = [] := by
  induction xs generalizing n with
  | nil => rfl
  | cons x xs ih =>
    cases n with
    | zero => rfl
    | succ n => simp [replicate_succ, marked, ih]

/-- Setting the mark of one element adds it to the sum. -/
lemma sum_marked_set (f : α → Int) (before rest : List α) (x : α) {marks : List Bool}
    (hlen : before.length < marks.length) (hoff : marks[before.length]? = some false) :
    ((marked (before ++ x :: rest) (marks.set before.length true)).map f).sum =
      ((marked (before ++ x :: rest) marks).map f).sum + f x := by
  induction before generalizing marks with
  | nil =>
    obtain _ | ⟨mark, marks⟩ := marks
    · simp at hlen
    · obtain rfl : mark = false := by simpa using hoff
      simp [marked, add_comm]
  | cons y before ih =>
    obtain _ | ⟨mark, marks⟩ := marks
    · simp at hlen
    · have hrest := ih (by simpa using hlen) (by simpa using hoff)
      cases mark with
      | false => simpa [marked] using hrest
      | true =>
        simp only [cons_append, length_cons, set_cons_succ, marked, map_cons,
          sum_cons, hrest]
        ring

/-- What is kept of a list keeps the order of its labels. -/
lemma map_filterMap_sublist {β γ : Type*} {f : α → Option β} {g : β → γ} {k : α → γ}
    (h : ∀ x y, f x = some y → g y = k x) (xs : List α) :
    ((xs.filterMap f).map g).Sublist (xs.map k) := by
  induction xs with
  | nil => exact .slnil
  | cons x xs ih =>
    rw [filterMap_cons]
    split
    · exact ih.cons _
    · rename_i y hy
      rw [map_cons, map_cons, h x y hy]
      exact ih.cons_cons _

/-- A loop that appends a list for some of the elements. -/
lemma foldlM_sublist {β : Type*} {f : List β → α → Option (List β)} {k : α → List β}
    (hstep : ∀ acc x acc', f acc x = some acc' → acc' = acc ∨ acc' = acc ++ k x)
    {xs : List α} {acc result : List β} (h : xs.foldlM f acc = some result) :
    ∃ added, result = acc ++ added ∧ added.Sublist (xs.flatMap k) := by
  induction xs generalizing acc with
  | nil =>
    obtain rfl := Option.some.inj h
    exact ⟨[], by simp, nil_sublist _⟩
  | cons x xs ih =>
    rw [foldlM_cons, Option.bind_eq_bind, Option.bind_eq_some_iff] at h
    obtain ⟨acc', hacc, h⟩ := h
    obtain ⟨added, rfl, hsub⟩ := ih h
    obtain rfl | rfl := hstep acc x acc' hacc
    · exact ⟨added, rfl, hsub.trans (sublist_append_right _ _)⟩
    · exact ⟨k x ++ added, by simp, hsub.append_left (k x)⟩

end Subset

end Jumpcoin
