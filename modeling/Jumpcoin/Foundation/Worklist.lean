import Mathlib.Data.List.Sort

/-!
# Worklists

The traversal of a graph with a sorted set of vertices that are to be visited and a set of those
that have been: take the first one, visit it, and add the vertices it leads to unless they have been
visited. A visit works on a state and may fail.

A traversal whose visits add nothing ends after a visit to each of the vertices (`run_flat`).
-/

namespace Worklist

variable {α σ : Type*} [DecidableEq α] (r : α → α → Prop) [DecidableRel r]

/-- Add vertices to a sorted set, leaving out those that have been visited. -/
def push (done todo : List α) : List α → List α
  | [] => todo
  | a :: next => push done (if a ∈ done ∨ a ∈ todo then todo else todo.orderedInsert r a) next

/-- The traversal; it stops without a value when a visit fails or the fuel runs out. -/
def run (visit : α → σ → Option (σ × List α)) : Nat → List α → List α → σ → Option σ
  | _, [], _, s => some s
  | 0, _ :: _, _, _ => none
  | fuel + 1, now :: todo, done, s =>
    match visit now s with
    | none => none
    | some (s', next) => run visit fuel (push r (now :: done) todo next) (now :: done) s'

variable {r} {visit : α → σ → Option (σ × List α)}

lemma mem_push {done todo next : List α} {a : α} :
    a ∈ push r done todo next ↔ a ∈ todo ∨ a ∈ next ∧ a ∉ done := by
  induction next generalizing todo with
  | nil => simp [push]
  | cons b next ih =>
    rw [push, ih]
    split_ifs with hb
    · grind
    · rw [List.mem_orderedInsert]
      grind

lemma length_push_le (done todo next : List α) :
    (push r done todo next).length ≤ todo.length + next.length := by
  induction next generalizing todo with
  | nil => simp [push]
  | cons b next ih =>
    refine (ih _).trans ?_
    split_ifs
    · simp
    · rw [List.orderedInsert_length, List.length_cons]
      omega

/-- A traversal that finds nothing to add visits the vertices in turn. `I` relates the vertices
visited so far to the state. -/
lemma run_flat {I : List α → σ → Prop} {V : α → Prop}
    (hvisit : ∀ {a done s}, V a → I done s → ∃ s', visit a s = some (s', []) ∧ I (a :: done) s')
    {fuel : Nat} {todo done : List α} {s : σ} (hV : ∀ a ∈ todo, V a) (hfuel : todo.length ≤ fuel)
    (hI : I done s) :
    ∃ s', run r visit fuel todo done s = some s' ∧ I (todo.reverse ++ done) s' := by
  induction todo generalizing fuel done s with
  | nil => exact ⟨s, by cases fuel <;> rfl, hI⟩
  | cons now todo ih =>
    obtain ⟨fuel, rfl⟩ : ∃ n, fuel = n + 1 := ⟨fuel - 1, by simp at hfuel; omega⟩
    obtain ⟨s₁, hnow, hI₁⟩ := hvisit (hV now List.mem_cons_self) hI
    obtain ⟨s', hrun, hI'⟩ := ih (fun a ha => hV a (List.mem_cons_of_mem _ ha))
      (by simpa using hfuel) hI₁
    refine ⟨s', ?_, by simpa using hI'⟩
    rw [run, hnow]
    exact hrun

end Worklist
