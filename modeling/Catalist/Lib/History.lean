import Catalist.Lib.Transition
import Mathlib.Data.List.Induction

/-!
# Runs that are recorded

A recorded state carries the history of its run: every step, with the states around it. A run can be
cut at any moment of its history (`Reachable.cut`). So what holds of every reachable state holds
before every moment, and what a moment makes true for good holds at every later one
(`Reachable.everAfter`).
-/

namespace Transition

variable {σ α : Type*}

/-- A step of a run. -/
structure Moment (σ α : Type*) where
  before : σ
  action : α
  after : σ

/-- A state, with the history that led to it. -/
structure Recorded (σ α : Type*) where
  state : σ
  history : List (Moment σ α)

namespace Recorded

/-- One more step. -/
def record (w : Recorded σ α) (action : α) (s : σ) : Recorded σ α :=
  { state := s, history := w.history ++ [⟨w.state, action, s⟩] }

@[simp] theorem state_record (w : Recorded σ α) (action : α) (s : σ) :
    (w.record action s).state = s :=
  rfl

/-- Recorded runs start without a history. -/
def Starts (Init : σ → Prop) (w : Recorded σ α) : Prop :=
  Init w.state ∧ w.history = []

/-- The steps of recorded runs. -/
inductive Acts (Performs : σ → α → σ → Prop) : Recorded σ α → Recorded σ α → Prop where
  | act {w : Recorded σ α} {action : α} {s : σ} :
      Performs w.state action s → Acts Performs w (w.record action s)

end Recorded

open Recorded

/-- What is recorded is a run. -/
theorem Reachable.unrecorded {Init : σ → Prop} {Step : σ → σ → Prop} {Performs : σ → α → σ → Prop}
    {w : Recorded σ α} (h : Reachable (Starts Init) (Acts Performs) w)
    (hstep : ∀ s action s', Performs s action s' → Step s s') : Reachable Init Step w.state := by
  induction h with
  | init h₀ => exact .init h₀.1
  | step _ hs ih =>
    obtain ⟨hperforms⟩ := hs
    exact ih.step (hstep _ _ _ hperforms)

/-- Recording does not restrict the runs. -/
theorem Reachable.exists_recorded {Init : σ → Prop} {Step : σ → σ → Prop}
    {Performs : σ → α → σ → Prop} {s : σ} (h : Reachable Init Step s)
    (hstep : ∀ s s', Step s s' → ∃ action, Performs s action s') :
    ∃ history, Reachable (Starts Init) (Acts Performs) ⟨s, history⟩ := by
  induction h with
  | init h₀ => exact ⟨[], .init ⟨h₀, rfl⟩⟩
  | step _ hs ih =>
    obtain ⟨history, hw⟩ := ih
    obtain ⟨action, hperforms⟩ := hstep _ _ hs
    exact ⟨_, hw.step ⟨hperforms⟩⟩

variable {Performs : σ → α → σ → Prop} {Init : Recorded σ α → Prop} {w : Recorded σ α}
  {past later : List (Moment σ α)} {m : Moment σ α}

/-- **A run can be cut at a moment** that is in the history, but not in that of its first state. -/
theorem Reachable.cut (h : Reachable Init (Acts Performs) w)
    (hinit : ∀ w₀, Init w₀ → w₀.history.length ≤ past.length)
    (hhistory : w.history = past ++ m :: later) :
    Reachable Init (Acts Performs) ⟨m.before, past⟩ ∧ Performs m.before m.action m.after ∧
      Reachable (· = ⟨m.after, past ++ [m]⟩) (Acts Performs) w := by
  induction h generalizing later with
  | init h₀ =>
    have hlength := hinit _ h₀
    rw [hhistory, List.length_append, List.length_cons] at hlength
    omega
  | @step w w' hw hs ih =>
    obtain ⟨hperforms⟩ := hs
    rcases List.eq_nil_or_concat later with rfl | ⟨later, last, rfl⟩
    · obtain ⟨rfl, hlast⟩ := List.append_inj' hhistory rfl
      cases hlast
      exact ⟨hw, hperforms, .init rfl⟩
    · rw [List.concat_eq_append, ← List.cons_append, ← List.append_assoc] at hhistory
      obtain ⟨hbefore, -⟩ := List.append_inj' hhistory rfl
      obtain ⟨hpast, hmoment, hrun⟩ := ih hbefore
      exact ⟨hpast, hmoment, hrun.step ⟨hperforms⟩⟩

/-- **What a moment makes true for good** is true at every later moment. -/
theorem Reachable.everAfter {P : σ → Prop} (h : Reachable Init (Acts Performs) w)
    (hinit : ∀ w₀, Init w₀ → w₀.history.length ≤ past.length)
    (hhistory : w.history = past ++ m :: later) (hm : P m.after)
    (hkeep : ∀ s action s', P s → Performs s action s' → P s') :
    P w.state ∧ ∀ m' ∈ later, P m'.before ∧ Performs m'.before m'.action m'.after := by
  have hstays : ∀ w', Reachable (· = ⟨m.after, past ++ [m]⟩) (Acts Performs) w' → P w'.state := by
    intro w' hrun
    induction hrun with
    | init heq =>
      subst heq
      exact hm
    | step _ hs ih =>
      obtain ⟨hperforms⟩ := hs
      exact hkeep _ _ _ ih hperforms
  obtain ⟨-, -, hrun⟩ := h.cut hinit hhistory
  refine ⟨hstays w hrun, fun m' hm' => ?_⟩
  obtain ⟨between, rest, rfl⟩ := List.append_of_mem hm'
  have hsplit : w.history = (past ++ [m] ++ between) ++ m' :: rest := by
    rw [hhistory]
    simp
  obtain ⟨hbefore, hperforms, -⟩ := hrun.cut (by
    rintro _ rfl
    simp) hsplit
  exact ⟨hstays _ hbefore, hperforms⟩

/--
**What a moment makes true, and every step keeps**, still holds. It may be about the moments since
then.
-/
theorem Reachable.lasting {P : List (Moment σ α) → σ → Prop} (h : Reachable Init (Acts Performs) w)
    (hinit : ∀ w₀, Init w₀ → w₀.history = []) (hhistory : w.history = past ++ m :: later)
    (hm : P [] m.after)
    (hkeep : ∀ between s action s', P between s → Performs s action s' →
      P (between ++ [⟨s, action, s'⟩]) s') : P later w.state := by
  have hholds : ∀ w', Reachable (· = ⟨m.after, past ++ [m]⟩) (Acts Performs) w' →
      ∃ between, w'.history = past ++ [m] ++ between ∧ P between w'.state := by
    intro w' hrun
    induction hrun with
    | init heq =>
      subst heq
      exact ⟨[], (List.append_nil _).symm, hm⟩
    | step _ hs ih =>
      obtain ⟨hperforms⟩ := hs
      obtain ⟨between, hbetween, hP⟩ := ih
      exact ⟨_, by rw [record, hbetween, List.append_assoc], hkeep _ _ _ _ hP hperforms⟩
  obtain ⟨-, -, hrun⟩ := h.cut (fun w₀ h₀ => by
    rw [hinit w₀ h₀]
    exact Nat.zero_le _) hhistory
  obtain ⟨between, hbetween, hP⟩ := hholds w hrun
  have hsame : past ++ [m] ++ later = past ++ [m] ++ between := by
    rw [← hbetween, hhistory]
    simp
  rw [List.append_cancel_left hsame]
  exact hP

/-- It holds before every later moment. -/
theorem Reachable.since {P : List (Moment σ α) → σ → Prop} {m' : Moment σ α}
    {rest : List (Moment σ α)} (h : Reachable Init (Acts Performs) w)
    (hinit : ∀ w₀, Init w₀ → w₀.history = [])
    (hhistory : w.history = past ++ m :: (later ++ m' :: rest)) (hm : P [] m.after)
    (hkeep : ∀ between s action s', P between s → Performs s action s' →
      P (between ++ [⟨s, action, s'⟩]) s') :
    P later m'.before ∧ Performs m'.before m'.action m'.after := by
  have hsplit : w.history = (past ++ m :: later) ++ m' :: rest := by
    rw [hhistory, List.append_assoc, List.cons_append]
  obtain ⟨hbefore, hperforms, -⟩ := h.cut (fun w₀ h₀ => by
    rw [hinit w₀ h₀]
    exact Nat.zero_le _) hsplit
  exact ⟨hbefore.lasting hinit rfl hm hkeep, hperforms⟩

/-! ## The last moment of a kind -/

/-- There is a moment with `P`, and all that came after it satisfy `Q`. -/
def Since (P Q : Moment σ α → Prop) (history : List (Moment σ α)) : Prop :=
  ∃ past m later, history = past ++ m :: later ∧ P m ∧ ∀ m' ∈ later, Q m'

variable {P Q : Moment σ α → Prop} {history : List (Moment σ α)}

theorem since_append_self (h : P m) : Since P Q (history ++ [m]) :=
  ⟨history, m, [], rfl, h, fun _ hm' => absurd hm' List.not_mem_nil⟩

theorem Since.append (h : Since P Q history) (hm : Q m) : Since P Q (history ++ [m]) := by
  obtain ⟨past, m₀, later, rfl, hP, hQ⟩ := h
  refine ⟨past, m₀, later ++ [m], ?_, hP, fun m' hm' => ?_⟩
  · rw [List.append_assoc, List.cons_append]
  · rcases List.mem_append.mp hm' with hm' | hm'
    · exact hQ m' hm'
    · rw [List.mem_singleton.mp hm']
      exact hm

/-- What the last moment of a history says about it. -/
theorem since_concat_iff : Since P Q (history ++ [m]) ↔ P m ∨ Since P Q history ∧ Q m := by
  constructor
  · rintro ⟨past, m₀, later, heq, hP, hQ⟩
    rcases List.eq_nil_or_concat later with rfl | ⟨later, last, rfl⟩
    · obtain ⟨-, hlast⟩ := List.append_inj' heq rfl
      cases hlast
      exact .inl hP
    · rw [List.concat_eq_append, ← List.cons_append, ← List.append_assoc] at heq
      obtain ⟨rfl, hlast⟩ := List.append_inj' heq rfl
      cases hlast
      rw [List.concat_eq_append] at hQ
      exact .inr ⟨⟨past, m₀, later, rfl, hP, fun m' hm' => hQ m' (List.mem_append_left _ hm')⟩,
        hQ m (List.mem_append_right _ (List.mem_singleton_self m))⟩
  · rintro (hP | ⟨hsince, hQ⟩)
    · exact since_append_self hP
    · exact hsince.append hQ

theorem Since.mono {Q' : Moment σ α → Prop} (h : Since P Q history) (hQ : ∀ m, Q m → Q' m) :
    Since P Q' history := by
  obtain ⟨past, m, later, heq, hP, hlater⟩ := h
  exact ⟨past, m, later, heq, hP, fun m' hm' => hQ m' (hlater m' hm')⟩

end Transition
