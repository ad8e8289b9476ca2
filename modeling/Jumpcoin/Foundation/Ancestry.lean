import Mathlib.Tactic

/-!
# Ancestors in a forest of parent pointers

A forest is given by a partial function from elements to their parents. `Ancestor par a b` says
that `a` is `b` or is reached from `b` by following parents. A forest is ranked by heights that
drop by one from an element to its parent; then there are no cycles, and the ancestors of an element
are linearly ordered, one for each height.
-/

namespace Jumpcoin

variable {α : Type} {par par' : α → Option α} {height : α → Nat} {a b c p : α}

/-- `a` is `b`, or following the parents from `b` leads to `a`. -/
inductive Ancestor (par : α → Option α) (a : α) : α → Prop
  | self : Ancestor par a a
  | up {b p : α} : par b = some p → Ancestor par a p → Ancestor par a b

/-- The height of an element is one more than that of its parent. -/
def Ranked (par : α → Option α) (height : α → Nat) : Prop :=
  ∀ b p, par b = some p → height b = height p + 1

namespace Ancestor

lemma trans (h : Ancestor par a b) (h' : Ancestor par b c) : Ancestor par a c := by
  induction h' with
  | self => exact h
  | up hpar _ ih => exact .up hpar ih

lemma mono (h : Ancestor par a b) (hle : ∀ b p, par b = some p → par' b = some p) :
    Ancestor par' a b := by
  induction h with
  | self => exact .self
  | up hpar _ ih => exact .up (hle _ _ hpar) ih

/-- Two ancestors of one element are ancestors one of the other. -/
lemma comparable (h : Ancestor par a c) (h' : Ancestor par b c) :
    Ancestor par a b ∨ Ancestor par b a := by
  induction h with
  | self => exact .inr h'
  | @up c p hpar h ih =>
    cases h' with
    | self => exact .inl (.up hpar h)
    | up hpar' h' =>
      obtain rfl := Option.some.inj (hpar.symm.trans hpar')
      exact ih h'

lemma height_le (hrank : Ranked par height) (h : Ancestor par a b) : height a ≤ height b := by
  induction h with
  | self => exact le_refl _
  | up hpar _ ih => exact ih.trans (hrank _ _ hpar ▸ Nat.le_succ _)

lemma eq_of_height_le (hrank : Ranked par height) (h : Ancestor par a b)
    (hle : height b ≤ height a) : a = b := by
  cases h with
  | self => rfl
  | @up b p hpar h =>
    have hheight := hrank _ _ hpar
    have := h.height_le hrank
    omega

lemma eq_of_height_eq (hrank : Ranked par height) (h : Ancestor par a c) (h' : Ancestor par b c)
    (heq : height a = height b) : a = b := by
  rcases h.comparable h' with hab | hba
  · exact hab.eq_of_height_le hrank heq.ge
  · exact (hba.eq_of_height_le hrank heq.le).symm

end Ancestor

end Jumpcoin
