import Mathlib.Tactic

/-!
# Checks that report through a state

The control flow of a validation routine in an imperative program: it works on a state passed by
reference, and it either returns a value, refuses (returns `false`), or halts on a failed assertion
or an uncaught exception. `Check σ` is the monad of such routines.

Two facts are asked of a routine. Which runs return, which is answered by inverting `bind` and
`ensure`. And what a refusal leaves in the state: `Reports I P x` says that from a state with `I`
the routine `x` leaves the state alone when it returns and leaves a state with `P` when it refuses.
The second is closed under sequencing, so it is proved for a long routine by naming its parts.

## Main definitions

* `Outcome`, `Check`: outcomes and routines.
* `Check.ensure`, `Check.refuse`, `Check.halt`: the ways to stop.
* `Check.Reports`: what a refusal leaves behind.
* `Check.Fails`, `Check.Decides`: refusals that do not depend on the order of the checks.
* `Check.Restricts`: a routine that returns less often than another.
* `Check.Relates`: what a routine keeps, however it ends.
-/

namespace Jumpcoin

/-- How a routine ends. -/
inductive Outcome (α : Type) where
  | returned (a : α)
  | refused
  | halted
  deriving DecidableEq, Repr

def Outcome.isReturned {α : Type} : Outcome α → Bool
  | .returned _ => true
  | _ => false

def Outcome.returns {α : Type} (test : α → Bool) : Outcome α → Bool
  | .returned a => test a
  | _ => false

def Check (σ α : Type) := σ → Outcome α × σ

namespace Check

variable {σ α β : Type}

instance : Monad (Check σ) where
  pure a := fun s => (.returned a, s)
  bind x f := fun s =>
    match x s with
    | (.returned a, s') => f a s'
    | (.refused, s') => (.refused, s')
    | (.halted, s') => (.halted, s')

def refuse (f : σ → σ) : Check σ α := fun s => (.refused, f s)

def halt : Check σ α := fun s => (.halted, s)

def ensure (ok : Bool) (f : σ → σ) : Check σ Unit :=
  if ok then pure () else refuse f

/-- The value of a lookup that the program asserts to succeed. -/
def require : Option α → Check σ α
  | some a => pure a
  | none => halt

def onRefused (x : Check σ α) (f : σ → σ) : Check σ α := fun s =>
  match x s with
  | (.refused, s') => (.refused, f s')
  | r => r

def demand (ok : Bool) : Check σ Unit :=
  if ok then pure () else halt

lemma pure_apply (a : α) (s : σ) : (pure a : Check σ α) s = (.returned a, s) := rfl

lemma bind_apply (x : Check σ α) (f : α → Check σ β) (s : σ) : (x >>= f) s = match x s with
      | (.returned a, s') => f a s'
      | (.refused, s') => (.refused, s')
      | (.halted, s') => (.halted, s') := rfl

instance : LawfulMonad (Check σ) :=
  LawfulMonad.mk' (Check σ)
    (by
      intro α x
      funext s
      show (x >>= fun a => pure a) s = x s
      rcases hx : x s with ⟨a | _ | _, s'⟩ <;> simp [bind_apply, hx, pure_apply])
    (by
      intros
      rfl)
    (by
      intro α β γ x f g
      funext s
      rcases hx : x s with ⟨a | _ | _, s'⟩ <;> simp [bind_apply, hx])

/-! ## Runs that return -/

variable {x y : Check σ α} {f : α → Check σ β} {s s' : σ} {a : α} {b : β}

@[simp] lemma ensure_true (f : σ → σ) : ensure true f = pure () := rfl

@[simp] lemma ensure_false (f : σ → σ) : ensure false f = refuse f := rfl

@[simp] lemma require_some (a : α) : (require (some a) : Check σ α) = pure a := rfl

lemma pure_eq_returned {a b : α} : (pure a : Check σ α) s = (.returned b, s') ↔ a = b ∧ s = s' := by
  simp [pure_apply]

lemma bind_eq_returned : (x >>= f) s = (.returned b, s') ↔
      ∃ a s₁, x s = (.returned a, s₁) ∧ f a s₁ = (.returned b, s') := by
  rw [bind_apply]
  rcases hx : x s with ⟨a | _ | _, s₁⟩ <;> simp

lemma exists_returned (h : (x s).1.isReturned = true) : ∃ a s', x s = (.returned a, s') := by
  rcases hx : x s with ⟨a | _ | _, s'⟩
  · exact ⟨a, s', rfl⟩
  · simp [hx, Outcome.isReturned] at h
  · simp [hx, Outcome.isReturned] at h

lemma eq_refused (h : (x s).1 = .refused) : x s = (.refused, (x s).2) :=
  Prod.ext h rfl

lemma eq_returned (h : (x s).1 = .returned a) : x s = (.returned a, (x s).2) :=
  Prod.ext h rfl

lemma bind_returned (h : x s = (.returned a, s')) : (x >>= f) s = f a s' := by
  rw [bind_apply, h]

lemma exists_bind_returned {s₁ : σ} (h : x s = (.returned a, s₁))
    (hf : ∃ b s', f a s₁ = (.returned b, s')) : ∃ b s', (x >>= f) s = (.returned b, s') := by
  rwa [bind_returned h]

lemma bind_refused (h : x s = (.refused, s')) : (x >>= f) s = (.refused, s') := by
  rw [bind_apply, h]

lemma bind_halted (h : x s = (.halted, s')) : (x >>= f) s = (.halted, s') := by
  rw [bind_apply, h]

/-- The state that is left, whether or not another routine follows. -/
lemma bind_state {P : σ → Prop} (hstop : P (x s).2)
    (hnext : ∀ a s', x s = (.returned a, s') → P (f a s').2) : P ((x >>= f) s).2 := by
  rw [bind_apply]
  rcases hx : x s with ⟨a | _ | _, s₁⟩
  · exact hnext a s₁ hx
  all_goals
    rwa [hx] at hstop

@[simp] lemma demand_true : (demand true : Check σ Unit) = pure () := rfl

@[simp] lemma demand_false : (demand false : Check σ Unit) = halt := rfl

lemma demand_bind_apply (ok : Bool) (f : Unit → Check σ β) (s : σ) :
    (demand ok >>= f) s = if ok then f () s else (.halted, s) := by
  cases ok <;> rfl

@[simp] lemma require_none : (require none : Check σ α) = halt := rfl

@[simp] lemma halt_bind (f : α → Check σ β) : (halt >>= f : Check σ β) = halt := rfl

@[simp] lemma refuse_bind (g : σ → σ) (f : α → Check σ β) :
    (refuse g >>= f : Check σ β) = refuse g := rfl

@[simp] lemma refuse_ne_returned {f : σ → σ} : (refuse f : Check σ α) s ≠ (.returned a, s') := by
  simp [refuse]

@[simp] lemma halt_ne_returned : (halt : Check σ α) s ≠ (.returned a, s') := by
  simp [halt]

variable {ok : Bool} {u : Unit}

lemma ensure_eq_returned {f : σ → σ} : ensure ok f s = (.returned u, s') ↔ ok = true ∧ s = s' := by
  cases ok <;> simp [ensure, pure_apply]

lemma ensure_returned {f : σ → σ} (h : ok = true) (s : σ) : ensure ok f s = (.returned (), s) :=
  ensure_eq_returned.mpr ⟨h, rfl⟩

lemma ensure_eq_refused {f : σ → σ} : ensure ok f s = (.refused, s') ↔ ok = false ∧ s' = f s := by
  cases ok <;> simp [ensure, refuse, pure_apply, eq_comm]

lemma ensure_bind_eq_refused {f : σ → σ} {g : Unit → Check σ β} :
    (ensure ok f >>= g) s = (.refused, s') ↔
      (ok = false ∧ s' = f s) ∨ (ok = true ∧ g () s = (.refused, s')) := by
  cases ok <;> simp [refuse, eq_comm]

lemma require_eq_returned {o : Option α} :
    (require o : Check σ α) s = (.returned a, s') ↔ o = some a ∧ s = s' := by
  cases o <;> simp [require, pure_apply]

lemma demand_eq_returned :
    (demand ok : Check σ Unit) s = (.returned u, s') ↔ ok = true ∧ s = s' := by
  cases ok <;> simp [demand, pure_apply]

lemma onRefused_eq_returned {f : σ → σ} :
    onRefused x f s = (.returned a, s') ↔ x s = (.returned a, s') := by
  unfold onRefused
  rcases x s with ⟨b | _ | _, s₁⟩ <;> simp

/-! ## What a refusal leaves behind -/

/-- From a state with `I` the routine leaves the state alone when it returns, and leaves a state
with `P` when it refuses. -/
def Reports (I P : σ → Prop) (x : Check σ α) : Prop :=
  ∀ s, I s → (∀ a s', x s = (.returned a, s') → s' = s) ∧ (∀ s', x s = (.refused, s') → P s')

namespace Reports

variable {I P : σ → Prop}

lemma pure (a : α) : Reports I P (Pure.pure a : Check σ α) := by
  intro s _
  refine ⟨fun b s' h => (pure_eq_returned.mp h).2.symm, fun s' h => ?_⟩
  simp [pure_apply] at h

lemma halt : Reports I P (Check.halt : Check σ α) := by
  intro s _
  simp [Check.halt]

lemma refuse {f : σ → σ} (h : ∀ s, I s → P (f s)) : Reports I P (Check.refuse f : Check σ α) := by
  intro s hs
  refine ⟨fun a s' hr => absurd hr refuse_ne_returned, fun s' hr => ?_⟩
  obtain rfl : f s = s' := by simpa [Check.refuse] using hr
  exact h s hs

lemma bind (hx : Reports I P x) (hf : ∀ a, Reports I P (f a)) : Reports I P (x >>= f) := by
  intro s hs
  obtain ⟨hret, href⟩ := hx s hs
  rcases hxs : x s with ⟨a | _ | _, s₁⟩
  · obtain rfl := hret a s₁ hxs
    rw [bind_returned hxs]
    exact hf a s₁ hs
  · rw [bind_refused hxs]
    refine ⟨by simp, fun s' h => ?_⟩
    obtain rfl : s₁ = s' := by simpa using h
    exact href s₁ hxs
  · rw [bind_halted hxs]
    simp

lemma ensure {f : σ → σ} (h : ∀ s, I s → P (f s)) : Reports I P (Check.ensure ok f) := by
  cases ok with
  | true => exact pure ()
  | false => exact refuse h

lemma require (o : Option α) : Reports I P (Check.require o) := by
  cases o with
  | none => exact halt
  | some a => exact pure a

lemma demand (ok : Bool) : Reports I P (Check.demand ok : Check σ Unit) := by
  cases ok with
  | true => exact pure ()
  | false => exact halt

lemma onRefused {f : σ → σ} (hx : Reports I P x) (h : ∀ s, P s → P (f s)) :
    Reports I P (Check.onRefused x f) := by
  intro s hs
  obtain ⟨hret, href⟩ := hx s hs
  refine ⟨fun a s' hr => hret a s' (onRefused_eq_returned.mp hr), fun s' hr => ?_⟩
  unfold Check.onRefused at hr
  rcases hxs : x s with ⟨a | _ | _, s₁⟩
  · simp [hxs] at hr
  · obtain rfl : f s₁ = s' := by simpa [hxs] using hr
    exact h s₁ (href s₁ hxs)
  · simp [hxs] at hr

lemma ite {c : Prop} [Decidable c] (hx : c → Reports I P x)
    (hy : ¬c → Reports I P y) : Reports I P (if c then x else y) := by
  split_ifs with h
  · exact hx h
  · exact hy h

end Reports

/-! ## Checks in any order -/

def Fails (x : Check σ α) (s : σ) : Prop :=
  ∃ s', x s = (.refused, s')

/-- From the state `s` the routine refuses, or it returns and leaves the state alone. Whether a
sequence of such routines fails does not depend on their order. -/
def Decides (x : Check σ α) (s : σ) : Prop :=
  Fails x s ∨ ∃ a, x s = (.returned a, s)

lemma fails_ensure {f : σ → σ} : Fails (ensure ok f) s ↔ ok = false := by
  cases ok <;> simp [Fails, refuse, pure_apply]

lemma fails_refuse (f : σ → σ) (s : σ) : Fails (refuse f : Check σ α) s :=
  ⟨f s, rfl⟩

/-- A sequence fails if one of its parts does. -/
lemma fails_bind {y : Check σ β} (hx : Decides x s) :
    Fails (x >>= fun _ => y) s ↔ Fails x s ∨ Fails y s := by
  rcases hx with ⟨s', hfails⟩ | ⟨a, hreturned⟩
  · exact iff_of_true ⟨s', bind_refused hfails⟩ (.inl ⟨s', hfails⟩)
  · have hnot : ¬Fails x s := by
      rintro ⟨s', hfails⟩
      simp [hreturned] at hfails
    simp only [Fails, bind_returned hreturned]
    exact (or_iff_right hnot).symm

namespace Decides

lemma pure (a : α) : Decides (Pure.pure a : Check σ α) s := .inr ⟨a, rfl⟩

lemma refuse (f : σ → σ) : Decides (Check.refuse f : Check σ α) s := .inl (fails_refuse f s)

lemma ensure {f : σ → σ} : Decides (Check.ensure ok f) s := by
  cases ok with
  | true => exact pure ()
  | false => exact refuse f

lemma bind (hx : Decides x s) (hf : ∀ a, Decides (f a) s) : Decides (x >>= f) s := by
  rcases hx with ⟨s', hfails⟩ | ⟨a, hreturned⟩
  · exact .inl ⟨s', bind_refused hfails⟩
  · simpa only [Decides, Fails, bind_returned hreturned] using hf a

lemma onRefused {f : σ → σ} (hx : Decides x s) : Decides (Check.onRefused x f) s := by
  rcases hx with ⟨s', hfails⟩ | ⟨a, hreturned⟩
  · exact .inl ⟨f s', by simp [Check.onRefused, hfails]⟩
  · exact .inr ⟨a, by simp [Check.onRefused, hreturned]⟩

lemma ite {c : Prop} [Decidable c] (hx : c → Decides x s)
    (hy : ¬c → Decides y s) : Decides (if c then x else y) s := by
  split_ifs with h
  · exact hx h
  · exact hy h

end Decides

/-! ## Routines that return less often -/

/-- Where `x` returns, `y` returns the same and leaves the same state. -/
def Restricts (x y : Check σ α) : Prop :=
  ∀ s a s', x s = (.returned a, s') → y s = (.returned a, s')

namespace Restricts

lemma refl (x : Check σ α) : Restricts x x := fun _ _ _ h => h

lemma bind {f g : α → Check σ β} (h : Restricts x y)
    (hf : ∀ a, Restricts (f a) (g a)) : Restricts (x >>= f) (y >>= g) := by
  intro s b s' hreturned
  obtain ⟨a, s₁, hx, hrest⟩ := bind_eq_returned.mp hreturned
  exact bind_eq_returned.mpr ⟨a, s₁, h s a s₁ hx, hf a s₁ b s' hrest⟩

lemma refuse (f : σ → σ) (y : Check σ α) : Restricts (Check.refuse f) y :=
  fun _ _ _ h => absurd h refuse_ne_returned

lemma ensure {ok' : Bool} {f f' : σ → σ} (h : ok = true → ok' = true) :
    Restricts (Check.ensure ok f) (Check.ensure ok' f') := by
  intro s u s' hreturned
  obtain ⟨hok, rfl⟩ := ensure_eq_returned.mp hreturned
  exact ensure_returned (h hok) s

lemma require {o o' : Option α} (h : ∀ a, o = some a → o' = some a) :
    Restricts (Check.require o : Check σ α) (Check.require o') := by
  intro s a s' hreturned
  obtain ⟨hsome, rfl⟩ := require_eq_returned.mp hreturned
  exact require_eq_returned.mpr ⟨h a hsome, rfl⟩

end Restricts

/-! ## What a routine keeps -/

/-- However the routine ends, the state it leaves is related to the one it started from. -/
def Relates (R : σ → σ → Prop) (x : Check σ α) : Prop :=
  ∀ s, R s (x s).2

namespace Relates

variable {R : σ → σ → Prop}

lemma pure [Std.Refl R] (a : α) : Relates R (Pure.pure a : Check σ α) :=
  fun s => Std.Refl.refl s

lemma halt [Std.Refl R] : Relates R (Check.halt : Check σ α) :=
  fun s => Std.Refl.refl s

lemma bind [IsTrans σ R] (hx : Relates R x) (hf : ∀ a, Relates R (f a)) : Relates R (x >>= f) := by
  refine fun s => bind_state (hx s) fun a s₁ hxs => IsTrans.trans _ s₁ _ ?_ (hf a s₁)
  have hfirst := hx s
  rwa [hxs] at hfirst

lemma require [Std.Refl R] (o : Option α) : Relates R (Check.require o) := by
  cases o with
  | none => exact halt
  | some a => exact pure a

lemma demand [Std.Refl R] (ok : Bool) : Relates R (Check.demand ok : Check σ Unit) := by
  cases ok with
  | true => exact pure ()
  | false => exact halt

end Relates

def Kept (P : σ → Prop) (s s' : σ) : Prop := P s → P s'

instance {P : σ → Prop} : Std.Refl (Kept P) := ⟨fun _ h => h⟩

instance {P : σ → Prop} : IsTrans σ (Kept P) := ⟨fun _ _ _ h h' hs => h' (h hs)⟩

/-- A part that keeps more than the rest of the routine does. -/
lemma Relates.kept_bind {P Q : σ → Prop} (hx : Relates (Kept P) x) (hPQ : ∀ s, P s → Q s)
    (hf : ∀ a, Relates (Kept Q) (f a)) (hs : P s) : Q ((x >>= f) s).2 := by
  refine bind_state (hPQ _ (hx s hs)) fun a s₁ hxs => hf a s₁ (hPQ s₁ ?_)
  have hfirst := hx s hs
  rwa [hxs] at hfirst

end Check

end Jumpcoin
