import Mathlib.Data.Nat.ModEq

/-!
# Generations

Insertions mark places. Each `size` insertions form a generation, and a place carries the
generation of the newest insertion that marked it. Only the last `span` generations are kept, under
codes that return after `span` generations; what an insertion marked is kept for the following
`(span - 1) * size` ones at least.
-/

namespace Generations

variable {P : Type*} [DecidableEq P] {size span : Nat} {newest older : List (List P)}
  {places : List P} {p : P} {now g : Nat}

/-- The generation of the newest insertion at a place. Insertions are listed newest first. -/
def stamp (size : Nat) : List (List P) → P → Option Nat
  | [], _ => none
  | places :: older, p => if p ∈ places then some (older.length / size) else stamp size older p

def current (size n : Nat) : Nat := (n - 1) / size

/-- The code of a generation among those kept, zero for none. -/
def code (span now : Nat) : Option Nat → Nat
  | none => 0
  | some g => if now < g + span then g % span + 1 else 0

def filled (size n : Nat) : Nat := n - size * current size n

lemma filled_le (hsize : 0 < size) (n : Nat) : filled size n ≤ size := by
  have hdiv := Nat.div_add_mod (n - 1) size
  have hmod := Nat.mod_lt (n - 1) hsize
  unfold filled current
  omega

/-- An insertion into a full generation starts the next one. -/
lemma current_succ_of_full {n : Nat} (hsize : 0 < size) (h : filled size n = size) :
    current size (n + 1) = current size n + 1 ∧ filled size (n + 1) = 1 := by
  have hn : n = size * (current size n + 1) := by
    unfold filled at h
    rw [Nat.mul_succ]
    omega
  have hnext : current size (n + 1) = current size n + 1 := by
    exact Nat.div_eq_of_eq_mul_right hsize hn
  refine ⟨hnext, ?_⟩
  rw [filled, hnext, ← hn]
  omega

lemma current_succ_of_room {n : Nat} (hsize : 0 < size) (h : filled size n ≠ size) :
    current size (n + 1) = current size n ∧ filled size (n + 1) = filled size n + 1 := by
  have hle := filled_le hsize n
  have hstart : size * current size n ≤ n := by
    have hdiv := Nat.mul_div_le (n - 1) size
    unfold current
    omega
  have hsame : current size (n + 1) = current size n := by
    apply Nat.div_eq_of_lt_le
    · rw [Nat.mul_comm]
      exact hstart
    · unfold filled at h hle
      rw [Nat.mul_comm, Nat.mul_succ]
      omega
  refine ⟨hsame, ?_⟩
  rw [filled, hsame, filled]
  omega

lemma current_mono {n m : Nat} (h : n ≤ m) : current size n ≤ current size m :=
  Nat.div_le_div_right (by omega)

lemma stamp_le {history : List (List P)} {g : Nat} (h : stamp size history p = some g) :
    g ≤ current size history.length := by
  induction history with
  | nil => cases h
  | cons places older ih =>
    rw [stamp] at h
    split_ifs at h with hp
    · cases h
      simp [current]
    · exact (ih h).trans (current_mono (by simp))

/-- A new generation takes over the code of the one that is dropped, and no other code changes. -/
lemma code_next (hg : g ≤ now) :
    code span (now + 1) (some g) =
      if code span now (some g) = (now + 1) % span + 1 then 0 else code span now (some g) := by
  by_cases hkept : now < g + span
  · by_cases hdrop : now + 1 = g + span
    · simp [code, hdrop, hkept]
    · have hne : g % span ≠ (now + 1) % span := by
        intro heq
        have hdvd : span ∣ now + 1 - g := (Nat.modEq_iff_dvd' (by omega)).mp heq
        have hle := Nat.le_of_dvd (by omega) hdvd
        omega
      have hlt : now + 1 < g + span := by omega
      simp [code, hkept, hlt, hne]
  · have hlt : ¬now + 1 < g + span := by omega
    simp [code, hkept, hlt]

lemma code_pos (h : now < g + span) : code span now (some g) ≠ 0 := by
  simp [code, h]

/-- A place marked by an insertion carries at least the generation of this insertion. -/
lemma exists_stamp (hp : p ∈ places) :
    ∃ g, stamp size (newest ++ places :: older) p = some g ∧ older.length / size ≤ g := by
  induction newest with
  | nil => exact ⟨_, by simp [stamp, hp], le_rfl⟩
  | cons later newest ih =>
    rw [List.cons_append, stamp]
    split_ifs
    · refine ⟨_, rfl, Nat.div_le_div_right ?_⟩
      simp
      omega
    · exact ih

/-- The places of a recent insertion are kept. -/
lemma code_stamp_ne_zero (hsize : 0 < size) (hspan : 0 < span) (hp : p ∈ places)
    (hrecent : newest.length < (span - 1) * size) :
    code span (current size (newest ++ places :: older).length)
      (stamp size (newest ++ places :: older) p) ≠ 0 := by
  obtain ⟨g, hg, hle⟩ := exists_stamp hp
  rw [hg]
  apply code_pos
  have hnow : current size (newest ++ places :: older).length ≤
      older.length / size + (span - 1) := by
    rw [← Nat.add_mul_div_right _ _ hsize]
    apply Nat.div_le_div_right
    simp
    omega
  omega

end Generations
