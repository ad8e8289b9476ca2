import Mathlib.Logic.Function.Basic

/-!
# Cached recursion

A function defined by recursion along a chain: at some keys its value is known at once, at every
other key it follows from the value at the previous key. Such a function is evaluated with a cache
by walking back to a key whose value is known, and then forward, filling the cache.
-/

/-- A function by recursion along a chain. -/
structure Recurrence (K V : Type*) where
  prev : K → K
  known : K → Option V
  step : K → V → V
  rank : K → Nat
  rank_prev : ∀ k, known k = none → rank (prev k) < rank k

namespace Recurrence

variable {K V : Type*} (r : Recurrence K V)

def value (k : K) : V :=
  match _h : r.known k with
  | some v => v
  | none => r.step k (value (r.prev k))
termination_by r.rank k
decreasing_by exact r.rank_prev k _h

def Sound (cache : K → Option V) : Prop :=
  ∀ k v, cache k = some v → v = r.value k

section

variable {r} {k : K}

lemma value_of_known {v : V} (h : r.known k = some v) : r.value k = v := by
  rw [value]
  split <;> simp_all

lemma value_of_unknown (h : r.known k = none) : r.value k = r.step k (r.value (r.prev k)) := by
  rw [value]
  split <;> simp_all

lemma Sound.empty : r.Sound fun _ => none := by
  intro k v h
  cases h

end

variable [DecidableEq K]

/-- Walk back to a key whose value is known, and remember the keys on the way. -/
def walkBack (cache : K → Option V) (toCompute : List K) (k : K) : List K × V × (K → Option V) :=
  match cache k with
  | some v => (toCompute, v, cache)
  | none =>
    match _h : r.known k with
    | some v => (toCompute, v, Function.update cache k (some v))
    | none => walkBack cache (k :: toCompute) (r.prev k)
termination_by r.rank k
decreasing_by exact r.rank_prev k _h

/-- Walk forward and compute the remembered keys. -/
def walkForward : List K → V → (K → Option V) → V × (K → Option V)
  | [], v, cache => (v, cache)
  | k :: rest, v, cache =>
    walkForward rest (r.step k v) (Function.update cache k (some (r.step k v)))

def evaluate (cache : K → Option V) (k : K) : V × (K → Option V) :=
  let (toCompute, v, cache) := r.walkBack cache [] k
  r.walkForward toCompute v cache

variable {r} {cache : K → Option V} {k : K}

lemma Sound.update (h : r.Sound cache) : r.Sound (Function.update cache k (some (r.value k))) := by
  intro key v hv
  by_cases hkey : key = k
  · subst hkey
    simpa using hv.symm
  · rw [Function.update_of_ne hkey] at hv
    exact h key v hv

/-- What the remembered keys compute from the value at `k` is what they compute from the value found
by walking back from `k`. -/
lemma Sound.walkBack (h : r.Sound cache) {target : K} {toCompute : List K}
    (hforward : ∀ cache, r.Sound cache →
      (r.walkForward toCompute (r.value k) cache).1 = r.value target ∧
        r.Sound (r.walkForward toCompute (r.value k) cache).2) :
    let found := r.walkBack cache toCompute k
    (r.walkForward found.1 found.2.1 found.2.2).1 = r.value target ∧
      r.Sound (r.walkForward found.1 found.2.1 found.2.2).2 := by
  fun_induction Recurrence.walkBack r cache toCompute k with
  | case1 toCompute k v hcached =>
    rw [h k v hcached]
    exact hforward cache h
  | case2 toCompute k hmissing v hknown =>
    rw [← value_of_known hknown]
    exact hforward _ h.update
  | case3 toCompute k hmissing hunknown ih =>
    apply ih
    intro cache hsound
    rw [walkForward, ← value_of_unknown hunknown]
    exact hforward _ hsound.update

/-- Evaluation with a sound cache gives the value and keeps the cache sound. -/
lemma Sound.evaluate (h : r.Sound cache) (k : K) :
    (r.evaluate cache k).1 = r.value k ∧ r.Sound (r.evaluate cache k).2 :=
  h.walkBack fun _ hsound => ⟨rfl, hsound⟩

end Recurrence
