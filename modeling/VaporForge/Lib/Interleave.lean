import Mathlib.Data.List.Induction
import Mathlib.Logic.Function.Basic

/-!
# Threads over shared state

Any number of threads, each with a state of its own, over one shared state. An action of a
thread is one atomic step on both. A run is a list of actions in the order in which they
happen, so that a statement about every run is one about every sequentially consistent
interleaving.

The proof rule is that of rely and guarantee. An `Outline` has an assertion `I` about the
shared state, one about each thread, `L`, which may speak of the shared state too, and what a
thread guarantees of its steps, `G`. A step keeps `I`, leads its own thread to its next
assertion and does what is guaranteed (`own`); what the others rely on is that their
assertions survive any step of which that much is known (`stable`). What is only true as
long as a counter has not run over is stated under a bound `B` that no step can restore.
-/

namespace Lib

/-- What an action of a thread does to the shared state and to the thread. `none` says that
the action is not possible there. -/
structure Threads (T σ τ α : Type) where
  step : T → α → σ → τ → Option (σ × τ)

/-- A state of the whole system. -/
structure System (T σ τ : Type) where
  shared : σ
  locals : T → τ

namespace Threads

variable {T σ τ α : Type} [DecidableEq T]

/-- One action. One that is not possible leaves the system as it is. -/
def act (M : Threads T σ τ α) (S : System T σ τ) (e : T × α) : System T σ τ :=
  match M.step e.1 e.2 S.shared (S.locals e.1) with
  | none => S
  | some (shared, l) => ⟨shared, Function.update S.locals e.1 l⟩

def run (M : Threads T σ τ α) (S : System T σ τ) (actions : List (T × α)) : System T σ τ :=
  actions.foldl M.act S

theorem run_concat (M : Threads T σ τ α) (S : System T σ τ) (actions : List (T × α))
    (e : T × α) : M.run S (actions ++ [e]) = M.act (M.run S actions) e :=
  List.foldl_append

/-- What an action did, if it did anything. -/
theorem act_cases (M : Threads T σ τ α) (S : System T σ τ) (e : T × α) :
    M.act S e = S ∨ ∃ shared l, M.step e.1 e.2 S.shared (S.locals e.1) = some (shared, l) ∧
      M.act S e = ⟨shared, Function.update S.locals e.1 l⟩ := by
  unfold act
  cases h : M.step e.1 e.2 S.shared (S.locals e.1) with
  | none => exact .inl rfl
  | some out => exact .inr ⟨out.1, out.2, rfl, rfl⟩

/-- A thread that takes no step stays where it is. -/
theorem run_locals (M : Threads T σ τ α) (S : System T σ τ) {actions : List (T × α)} {t : T}
    (h : ∀ e ∈ actions, e.1 ≠ t) : (M.run S actions).locals t = S.locals t := by
  induction actions using List.reverseRecOn with
  | nil => rfl
  | append_singleton actions e ih =>
    have hother := ih fun e he => h e (List.mem_append_left _ he)
    have hne : t ≠ e.1 := (h e (List.mem_append_right _ (List.mem_singleton_self e))).symm
    rw [run_concat, ← hother]
    rcases M.act_cases (M.run S actions) e with hsame | ⟨s, l, _, hact⟩
    · rw [hsame]
    · rw [hact]
      exact Function.update_of_ne hne _ _

/-- A proof outline, as long as `B` is kept. -/
structure Outline (M : Threads T σ τ α) (B I : σ → Prop) (L : T → σ → τ → Prop)
    (G : T → σ → σ → Prop) : Prop where
  back : ∀ {t a s l s' l'}, M.step t a s l = some (s', l') → B s' → B s
  own : ∀ {t a s l s' l'}, M.step t a s l = some (s', l') → B s' → I s → L t s l →
    G t s s' ∧ I s' ∧ L t s' l'
  stable : ∀ {t s s' t' m}, G t s s' → t' ≠ t → L t' s m → L t' s' m

/-- The assertions of an outline, of a whole system. -/
structure Holds (I : σ → Prop) (L : T → σ → τ → Prop) (S : System T σ τ) : Prop where
  shared : I S.shared
  locals : ∀ t, L t S.shared (S.locals t)

section Rule

variable {M : Threads T σ τ α} {B I : σ → Prop} {L : T → σ → τ → Prop} {G : T → σ → σ → Prop}

variable {S : System T σ τ} {e : T × α}

theorem Outline.back_act (O : Outline M B I L G) (h : B (M.act S e).shared) : B S.shared := by
  rcases M.act_cases S e with hsame | ⟨s, l, hstep, hact⟩
  · rwa [hsame] at h
  · rw [hact] at h
    exact O.back hstep h

theorem Outline.act (O : Outline M B I L G) (h : Holds I L S) (hB : B (M.act S e).shared) :
    Holds I L (M.act S e) := by
  rcases M.act_cases S e with hsame | ⟨s, l, hstep, hact⟩
  · rwa [hsame]
  · rw [hact] at hB ⊢
    obtain ⟨hG, hI, hL⟩ := O.own hstep hB h.shared (h.locals e.1)
    refine ⟨hI, fun t => ?_⟩
    show L t s (Function.update S.locals e.1 l t)
    by_cases ht : t = e.1
    · rw [ht, Function.update_self]
      exact hL
    · rw [Function.update_of_ne ht]
      exact O.stable hG ht (h.locals t)

/-- What an action did is what its thread guarantees. -/
theorem Outline.guarantee (O : Outline M B I L G) (h : Holds I L S) (hB : B (M.act S e).shared) :
    M.act S e = S ∨ G e.1 S.shared (M.act S e).shared := by
  rcases M.act_cases S e with hsame | ⟨s, l, hstep, hact⟩
  · exact .inl hsame
  · rw [hact] at hB ⊢
    exact .inr (O.own hstep hB h.shared (h.locals e.1)).1

/-- The outline holds along every run. -/
theorem Outline.run (O : Outline M B I L G) (h : Holds I L S) (actions : List (T × α))
    (hB : B (M.run S actions).shared) : Holds I L (M.run S actions) := by
  induction actions using List.reverseRecOn with
  | nil => exact h
  | append_singleton actions e ih =>
    rw [run_concat] at hB ⊢
    exact O.act (ih (O.back_act hB)) hB

end Rule

end Threads

end Lib
