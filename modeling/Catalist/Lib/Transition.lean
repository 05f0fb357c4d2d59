import Mathlib.Tactic.Common

/-!
# Runs of a transition system

States reachable from the initial ones, the invariant rule, and the rule for a relation with an
abstract description: when every step can be matched on the abstract side, every reachable state
has an abstract counterpart.
-/

namespace Transition

variable {σ α : Type*} {Init : σ → Prop} {Step : σ → σ → Prop}

/-- The states of all runs. -/
inductive Reachable (Init : σ → Prop) (Step : σ → σ → Prop) : σ → Prop where
  | init {s : σ} : Init s → Reachable Init Step s
  | step {s s' : σ} : Reachable Init Step s → Step s s' → Reachable Init Step s'

/-- **Invariant rule.** What holds initially and is kept by every step holds in every run. -/
theorem Reachable.invariant {Inv : σ → Prop} (hinit : ∀ s, Init s → Inv s)
    (hstep : ∀ s s', Inv s → Step s s' → Inv s') {s : σ} (h : Reachable Init Step s) : Inv s := by
  induction h with
  | init h0 => exact hinit _ h0
  | step _ hs ih => exact hstep _ _ ih hs

/-- Fewer kinds of steps make fewer runs. -/
theorem Reachable.mono {Step' : σ → σ → Prop} (himp : ∀ s s', Step s s' → Step' s s') {s : σ}
    (h : Reachable Init Step s) : Reachable Init Step' s := by
  induction h with
  | init h0 => exact .init h0
  | step _ hs ih => exact ih.step (himp _ _ hs)

/-- One step is a run. -/
theorem Reachable.single {s s' : σ} (h : Step s s') : Reachable (· = s) Step s' :=
  .step (.init rfl) h

/-- A run goes on from where another ended. -/
theorem Reachable.trans {s s' : σ} (h : Reachable Init Step s)
    (hlater : Reachable (· = s) Step s') : Reachable Init Step s' := by
  induction hlater with
  | init heq => exact heq ▸ h
  | step _ hs ih => exact ih.step hs

/--
**Simulation rule.** `Rel` relates states to abstract states, under an invariant. If initial
states have a counterpart and steps from related states lead to related states, every reachable
state has a counterpart.
-/
theorem Reachable.simulation {Inv : σ → Prop} {Rel : σ → α → Prop}
    (hinv : ∀ {s}, Reachable Init Step s → Inv s)
    (hinit : ∀ s, Init s → ∃ a, Rel s a)
    (hstep : ∀ s s' a, Inv s → Rel s a → Step s s' → ∃ a', Rel s' a')
    {s : σ} (h : Reachable Init Step s) : ∃ a, Rel s a := by
  induction h with
  | init h0 => exact hinit _ h0
  | step hr hs ih =>
    obtain ⟨a, ha⟩ := ih
    exact hstep _ _ a (hinv hr) ha hs

end Transition
