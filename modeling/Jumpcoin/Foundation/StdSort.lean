import Mathlib.Data.List.Perm.Subperm
import Mathlib.Data.List.Sort

/-!
# Sorting by a comparison

A sort that is right for every strict weak order and may put equivalent elements in any order. When
the last elements of a sorted list are taken away, each one that is left has as many others that do
not come before it.
-/

/-- A comparison that a sort may be called with. -/
structure StrictWeak {α : Type*} (less : α → α → Bool) : Prop where
  asymm : ∀ a b, less a b = true → less b a = false
  trans : ∀ a b c, less a b = false → less b c = false → less a c = false

structure StdSort (α : Type*) where
  sort : (α → α → Bool) → List α → List α
  perm : ∀ {less}, StrictWeak less → ∀ l, (sort less l).Perm l
  sorted : ∀ {less}, StrictWeak less → ∀ l, (sort less l).Pairwise fun a b => less b a = false

namespace StdSort

variable {α : Type*} {less : α → α → Bool} (std : StdSort α)

def insertion : StdSort α where
  sort less l := l.insertionSort fun a b => less b a = false
  perm _ l := List.perm_insertionSort _ l
  sorted {less} hless l := by
    have : Std.Total fun a b => less b a = false := ⟨fun a b => by grind [hless.asymm a b]⟩
    have : IsTrans α fun a b => less b a = false := ⟨fun a b c h h' => hless.trans c b a h' h⟩
    exact List.pairwise_insertionSort _ l

def eraseLast (less : α → α → Bool) (k : Nat) (l : List α) : List α :=
  (std.sort less l).take ((std.sort less l).length - k)

variable {std} {k : Nat} {l : List α}

lemma eraseLast_subperm (hless : StrictWeak less) : (std.eraseLast less k l).Subperm l :=
  (List.take_sublist _ _).subperm.trans (std.perm hless l).subperm

lemma length_eraseLast (hless : StrictWeak less) :
    (std.eraseLast less k l).length = l.length - k := by
  rw [eraseLast, List.length_take, (std.perm hless l).length_eq]
  omega

lemma pairwise_eraseLast (hless : StrictWeak less) :
    (std.eraseLast less k l).Pairwise fun a b => less b a = false :=
  (std.sorted hless l).sublist (List.take_sublist _ _)

/-- Of the elements that were taken away none comes before one that is left, and none is it. They
are elements of any list that the sorted one comes from, and are told apart by a key. -/
lemma le_countP_of_mem_eraseLast {ι : Type*} [DecidableEq ι] {key : α → ι} {all : List α}
    (hless : StrictWeak less) (hsub : l.Subperm all) (hdistinct : (all.map key).Nodup)
    (hk : k ≤ l.length) {a : α} (ha : a ∈ std.eraseLast less k l) {p : α → Bool}
    (hp : ∀ b, less b a = false → p b = true) : k ≤ all.countP fun b => key b != key a && p b := by
  have hperm := std.perm hless l
  have hsorted := std.sorted hless l
  have hkeys : ((std.sort less l).map key).Nodup := by
    obtain ⟨l', hperm', hl'⟩ := hperm.subperm.trans hsub
    exact (hperm'.map _).nodup_iff.mp (hdistinct.sublist (hl'.map _))
  have hlength : ((std.sort less l).drop ((std.sort less l).length - k)).length = k := by
    rw [List.length_drop, hperm.length_eq]
    omega
  rw [eraseLast] at ha
  generalize (std.sort less l).length - k = n at ha hlength
  rw [← List.take_append_drop n (std.sort less l)] at hsorted hkeys
  rw [List.map_append, List.nodup_append] at hkeys
  have hall : ∀ b ∈ (std.sort less l).drop n, (key b != key a && p b) = true := fun b hb => by
    have hne := hkeys.2.2 _ (List.mem_map_of_mem ha) _ (List.mem_map_of_mem hb)
    simpa [Ne.symm hne] using hp b ((List.pairwise_append.mp hsorted).2.2 a ha b hb)
  calc k = ((std.sort less l).drop n).countP _ := by rw [List.countP_eq_length.mpr hall, hlength]
    _ ≤ all.countP _ :=
      ((List.drop_sublist _ _).subperm.trans (hperm.subperm.trans hsub)).countP_le _

end StdSort
