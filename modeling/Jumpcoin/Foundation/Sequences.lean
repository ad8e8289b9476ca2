import Mathlib.Data.List.Forall2
import Mathlib.Data.List.Sort
import Mathlib.Order.Basic
import Mathlib.Tactic

/-!
# Sequences

Rules for what goes through a list step by step: loops that may fail, the search for a best element,
traces of machines, assignments in order, and order statistics.
-/

namespace Jumpcoin

/-! ## Loops

The invariant of a loop speaks of the elements that are left. -/

namespace Loop

universe u v w

variable {α : Type u} {β : Type v}

/-- A loop that may fail, but does not. -/
lemma foldlM_rule {m : Type v → Type w} [Monad m] [LawfulMonad m] (I : List α → β → Prop)
    {f : β → α → m β} (step : ∀ a rest b, I (a :: rest) b → ∃ b', f b a = pure b' ∧ I rest b')
    {l : List α} {b : β} (h : I l b) : ∃ r, l.foldlM f b = pure r ∧ I [] r := by
  induction l generalizing b with
  | nil => exact ⟨b, rfl, h⟩
  | cons a rest ih =>
    obtain ⟨b', hf, hb'⟩ := step a rest b h
    obtain ⟨r, hr, hI⟩ := ih hb'
    exact ⟨r, by rw [List.foldlM_cons, hf, pure_bind, hr], hI⟩

/-- A list that is mapped by a function that may fail, element by element. -/
lemma forall₂_of_mapM {f : α → Option β} {l : List α} {l' : List β} (h : l.mapM f = some l') :
    List.Forall₂ (fun a b => f a = some b) l l' := by
  induction l generalizing l' with
  | nil =>
    obtain rfl : [] = l' := by simpa using h
    exact .nil
  | cons a l ih =>
    rw [List.mapM_cons] at h
    obtain ⟨b, hb, h⟩ := Option.bind_eq_some_iff.mp h
    obtain ⟨bs, hbs, h⟩ := Option.bind_eq_some_iff.mp h
    obtain rfl := Option.some.inj h
    exact .cons hb (ih hbs)

lemma exists_left_of_mem {R : α → β → Prop} {l : List α} {l' : List β} (h : List.Forall₂ R l l')
    {b : β} (hb : b ∈ l') : ∃ a ∈ l, R a b := by
  induction h with
  | nil => cases hb
  | cons hr _ ih =>
    obtain rfl | hb := List.mem_cons.mp hb
    · exact ⟨_, List.mem_cons_self, hr⟩
    · obtain ⟨a, ha, hab⟩ := ih hb
      exact ⟨a, List.mem_cons_of_mem _ ha, hab⟩

end Loop

/-! ## The best element

A list is searched from left to right for an element that no other exceeds; of elements that neither
exceeds the earlier one is kept. -/

section Best

variable {α : Type} {less : α → α → Bool}

def keepBest (less : α → α → Bool) (best : Option α) (a : α) : Option α :=
  match best with
  | none => some a
  | some b => if less b a then some a else some b

lemma keepBest_cases (less : α → α → Bool) (best : Option α) (a : α) :
    keepBest less best a = some a ∨ keepBest less best a = best := by
  unfold keepBest
  cases best with
  | none => exact .inl rfl
  | some b =>
    dsimp only
    split_ifs
    · exact .inl rfl
    · exact .inr rfl

lemma foldl_keepBest_mem {l : List α} {best : Option α} {x : α}
    (h : l.foldl (keepBest less) best = some x) : x ∈ l ∨ best = some x := by
  induction l generalizing best with
  | nil => exact .inr h
  | cons a l ih =>
    rcases ih h with hmem | hbest
    · exact .inl (List.mem_cons_of_mem _ hmem)
    · rcases keepBest_cases less best a with ha | hkept
      · obtain rfl := Option.some.inj (ha.symm.trans hbest)
        exact .inl List.mem_cons_self
      · exact .inr (hkept.symm.trans hbest)

end Best

/-! ## Traces

A program that takes labelled steps, an abstract machine with the same labels, and a relation that
every step of the program keeps with some step of the machine: then every trace of the program is
one of the machine. -/

section Traces

variable {Label State Spec : Type}

/-- The states a machine goes through while it takes steps with given labels. -/
inductive Trace (step : Label → State → State → Prop) : List Label → State → State → Prop
  | nil {s : State} : Trace step [] s s
  | snoc {labels : List Label} {label : Label} {s s' s'' : State} : Trace step labels s s' →
      step label s' s'' → Trace step (labels ++ [label]) s s''

/-- Forward simulation: steps that keep the relation one by one keep it along a trace. -/
lemma Trace.simulate {step : Label → State → State → Prop} {specStep : Label → Spec → Spec → Prop}
    {R : State → Spec → Prop}
    (hstep : ∀ label s s' t, R s t → step label s s' → ∃ t', specStep label t t' ∧ R s' t')
    {labels : List Label} {s s' : State} {t : Spec} (htrace : Trace step labels s s')
    (hrel : R s t) :
    ∃ t', Trace specStep labels t t' ∧ R s' t' := by
  induction htrace with
  | nil => exact ⟨t, .nil, hrel⟩
  | snoc _ hlast ih =>
    obtain ⟨t', htrace', hrel'⟩ := ih hrel
    obtain ⟨t'', hspec, hrel''⟩ := hstep _ _ _ _ hrel' hlast
    exact ⟨t'', .snoc htrace' hspec, hrel''⟩

end Traces

/-! ## Assignments in order

The elements of one list are to be given partners in another, in order and none twice. The greedy
scan of the second list finds such an assignment whenever there is one: an element that fits the
first one left can be its partner, and an element that does not fit is never needed. -/

section Assignments

variable {α β : Type} {ok : α → β → Prop} {a : α} {b : β} {as : List α} {bs : List β}

/-- The elements of `as` fit distinct elements of `bs` that stand in the same order. -/
def Assignable (ok : α → β → Prop) (as : List α) (bs : List β) : Prop :=
  ∃ bs' : List β, bs'.Sublist bs ∧ List.Forall₂ ok as bs'

namespace Assignable

@[simp] lemma nil : Assignable ok [] bs := ⟨[], List.nil_sublist bs, .nil⟩

lemma length_le (h : Assignable ok as bs) : as.length ≤ bs.length := by
  obtain ⟨bs', hsub, hall⟩ := h
  exact hall.length_eq ▸ hsub.length_le

lemma cons_of_ok (hok : ok a b) : Assignable ok (a :: as) (b :: bs) ↔ Assignable ok as bs := by
  constructor
  · rintro ⟨bs', hsub, hall⟩
    obtain ⟨b', bs'', -, hall', rfl⟩ := List.forall₂_cons_left_iff.mp hall
    -- whichever element the first one got, the others stand after it
    exact ⟨bs'', hsub.of_cons_cons, hall'⟩
  · rintro ⟨bs', hsub, hall⟩
    exact ⟨b :: bs', hsub.cons_cons b, .cons hok hall⟩

lemma cons_of_not (hok : ¬ ok a b) :
    Assignable ok (a :: as) (b :: bs) ↔ Assignable ok (a :: as) bs := by
  constructor
  · rintro ⟨bs', hsub, hall⟩
    cases hsub with
    | cons _ hsub => exact ⟨bs', hsub, hall⟩
    | cons_cons _ hsub =>
      cases hall with
      | cons hab _ => exact absurd hab hok
  · rintro ⟨bs', hsub, hall⟩
    exact ⟨bs', hsub.cons b, hall⟩

end Assignable

end Assignments

/-! ## Order statistics

An element of a sorted list is compared with a bound by counting: the element at position `k` is at
least `a` if no more than `k` elements are below `a`. The count does not depend on the order, so
order statistics of a list are compared without sorting it. -/

namespace OrderStatistics

variable {α β : Type*} [LinearOrder β] {f : α → β} {xs ys : List α} {a : β} {k : Nat}

def below (f : α → β) (a : β) (xs : List α) : Nat :=
  xs.countP fun x => decide (f x < a)

@[simp] lemma below_nil : below f a [] = 0 := rfl

lemma below_cons (x : α) : below f a (x :: xs) = below f a xs + if f x < a then 1 else 0 := by
  simp [below, List.countP_cons]

lemma below_perm (h : xs.Perm ys) : below f a xs = below f a ys :=
  h.countP_eq _

lemma le_getElem_iff (hsorted : xs.Pairwise fun x y => f x ≤ f y) (hk : k < xs.length) :
    a ≤ f xs[k] ↔ below f a xs ≤ k := by
  induction xs generalizing k with
  | nil => simp at hk
  | cons x xs ih =>
    rw [List.pairwise_cons] at hsorted
    rw [below_cons]
    by_cases hx : f x < a
    · cases k with
      | zero => simp [hx]
      | succ k =>
        have hrest := ih hsorted.2 (k := k) (by simpa using hk)
        simp only [List.getElem_cons_succ, hrest, hx, if_true]
        omega
    · have hle : a ≤ f x := not_lt.mp hx
      have hzero : below f a xs = 0 :=
        List.countP_eq_zero.mpr fun y hy => by simpa using hle.trans (hsorted.1 y hy)
      simp only [hzero, hx, if_false, Nat.add_zero, Nat.zero_le, iff_true]
      cases k with
      | zero => exact hle
      | succ k => exact hle.trans (hsorted.1 _ (List.getElem_mem _))

end OrderStatistics

end Jumpcoin
