import Mathlib.Logic.Basic

/-!
# Fallible code whose writes survive its errors

A call on external state that returns early on an error keeps what it has written
so far. `Effect σ ε α` is such code: the state comes out next to the result,
whether that is a value or an error. `Spec` is the corresponding triple, with
one postcondition for each of the two ways out, so that "a failed call leaves
the state alone" and "every call, failed or not, keeps the invariant" are both
instances of it.
-/

namespace Lib

def Effect (σ ε α : Type) : Type := σ → Except ε α × σ

namespace Effect

variable {σ ε α β : Type}

instance instMonad : Monad (Effect σ ε) where
  pure a := fun s => (.ok a, s)
  bind x f := fun s =>
    match x s with
    | (.ok a, s') => f a s'
    | (.error e, s') => (.error e, s')

/-- A computation that does not touch the state. -/
def lift (x : Except ε α) : Effect σ ε α := fun s => (x, s)

def raise (e : ε) : Effect σ ε α := fun s => (.error e, s)

def get : Effect σ ε σ := fun s => (.ok s, s)

def modify (f : σ → σ) : Effect σ ε Unit := fun s => (.ok (), f s)

variable {x : Effect σ ε α} {f : α → Effect σ ε β} {s s' : σ} {a : α} {b : β} {e : ε}

theorem bind_of_ok (h : x s = (.ok a, s')) : (x >>= f) s = f a s' := by
  show (match x s with | (.ok a, s') => f a s' | (.error e, s') => (.error e, s')) = _
  rw [h]

theorem bind_of_error (h : x s = (.error e, s')) : (x >>= f) s = (.error e, s') := by
  show (match x s with | (.ok a, s') => f a s' | (.error e, s') => (.error e, s')) = _
  rw [h]

@[simp] theorem lift_ok_bind : ((lift (.ok a) : Effect σ ε α) >>= f) s = f a s := rfl

@[simp] theorem get_bind {g : σ → Effect σ ε β} : ((get : Effect σ ε σ) >>= g) s = g s s := rfl

@[simp] theorem modify_bind {g : σ → σ} {k : Unit → Effect σ ε β} :
    ((modify g : Effect σ ε Unit) >>= k) s = k () (g s) := rfl

/-- `x`, started where `pre` holds, ends with a value and `post`, or with an
error and `fail`. -/
def Spec (pre : σ → Prop) (x : Effect σ ε α) (post : α → σ → Prop) (fail : ε → σ → Prop) :
    Prop :=
  ∀ s, pre s → ∀ r s', x s = (r, s') →
    match r with
    | .ok a => post a s'
    | .error e => fail e s'

namespace Spec

variable {pre pre' : σ → Prop} {mid : α → σ → Prop} {post : β → σ → Prop}
  {fail fail' : ε → σ → Prop}

theorem bind (hx : Spec pre x mid fail) (hf : ∀ a, Spec (mid a) (f a) post fail) :
    Spec pre (x >>= f) post fail := by
  intro s hs r s' hrun
  cases hxs : x s with
  | mk r₁ s₁ =>
    have hfirst := hx s hs r₁ s₁ hxs
    cases r₁ with
    | ok a =>
      rw [bind_of_ok hxs] at hrun
      exact hf a s₁ hfirst r s' hrun
    | error e =>
      rw [bind_of_error hxs] at hrun
      cases hrun
      exact hfirst

theorem pure (h : ∀ s, pre s → mid a s) : Spec pre (Pure.pure a : Effect σ ε α) mid fail := by
  intro s hs r s' hrun
  cases hrun
  exact h s hs

theorem mono {mid' : α → σ → Prop} (h : Spec pre x mid fail) (hpre : ∀ s, pre' s → pre s)
    (hmid : ∀ a s, mid a s → mid' a s) (hfail : ∀ e s, fail e s → fail' e s) :
    Spec pre' x mid' fail' := by
  intro s hs r s' hrun
  have hspec := h s (hpre s hs) r s' hrun
  cases r with
  | ok a => exact hmid a s' hspec
  | error e => exact hfail e s' hspec

theorem raise (h : ∀ s, pre s → fail e s) : Spec pre (Effect.raise e : Effect σ ε α) mid fail := by
  intro s hs r s' hrun
  cases hrun
  exact h s hs

end Spec

/-! ## Following another run -/

/-- Where `x` ends with a value, `y` does so on the image of the state under `g`. -/
def Tracks {τ : Type} (g : σ → τ) (x : Effect σ ε α) (y : Effect τ ε α) : Prop :=
  ∀ s a s', x s = (.ok a, s') → y (g s) = (.ok a, g s')

namespace Tracks

variable {τ : Type} {g : σ → τ} {y : Effect τ ε α} {k : α → Effect τ ε β}

theorem bind (hx : Tracks g x y) (hf : ∀ a, Tracks g (f a) (k a)) :
    Tracks g (x >>= f) (y >>= k) := by
  intro s b s' hrun
  cases hxs : x s with
  | mk r s₁ =>
    cases r with
    | ok a =>
      rw [bind_of_ok hxs] at hrun
      rw [bind_of_ok (hx s a s₁ hxs)]
      exact hf a s₁ b s' hrun
    | error e =>
      rw [bind_of_error hxs] at hrun
      cases hrun

theorem pure : Tracks g (Pure.pure a : Effect σ ε α) (Pure.pure a) := by
  intro s b s' hrun
  cases hrun
  rfl

/-- An error is followed by anything. -/
theorem raise : Tracks g (Effect.raise e : Effect σ ε α) y := by
  intro s b s' hrun
  cases hrun

end Tracks

end Effect

end Lib
