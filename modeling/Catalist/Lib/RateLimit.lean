import Mathlib.Algebra.BigOperators.Group.List.Basic
import Mathlib.Algebra.GroupWithZero.Nat
import Mathlib.Algebra.Order.Group.Nat
import Mathlib.Tactic.Common

/-!
# Rate limits

A limiter admits amounts at times that do not decrease. At any time it has a level, the most that it
would admit at once; waiting raises the level by at most `rate` for each unit of time and never above
`capacity`, and what is admitted is taken off it. `Limited` is what such a limiter keeps up: in every
window of time it admits at most `capacity`, and `rate` for each unit of time that the window lasts.
-/

namespace RateLimit

/-- Amounts with the times at which they were admitted. -/
abbrev Log := List (ℕ × ℕ)

/-- What was admitted at the times from `a` to `b`. -/
def admitted (log : Log) (a b : ℕ) : ℕ :=
  ((log.filter fun e => a ≤ e.1 ∧ e.1 ≤ b).map Prod.snd).sum

variable {log : Log} {a b capacity rate now now' level level' n : ℕ}

theorem admitted_nil : admitted [] a b = 0 := rfl

theorem admitted_append (log' : Log) :
    admitted (log ++ log') a b = admitted log a b + admitted log' a b := by
  simp [admitted]

/-- One more amount counts in the windows around its time. -/
theorem admitted_concat :
    admitted (log ++ [(now, n)]) a b
      = admitted log a b + if a ≤ now ∧ now ≤ b then n else 0 := by
  rw [admitted_append]
  congr 1
  by_cases h : a ≤ now ∧ now ≤ b
  · simp [admitted, h]
  · rw [if_neg h]
    simp [admitted, h]

/-- After the last entry of the log, only the beginning of a window matters. -/
theorem admitted_of_le (hlog : ∀ e ∈ log, e.1 ≤ now) (hnow : now ≤ b) :
    admitted log a b = admitted log a now := by
  unfold admitted
  congr 2
  refine List.filter_congr fun e he => ?_
  have hle := hlog e he
  rw [decide_eq_decide]
  constructor
  · rintro ⟨ha, -⟩
    exact ⟨ha, hle⟩
  · rintro ⟨ha, -⟩
    exact ⟨ha, hle.trans hnow⟩

/-- Nothing was admitted in a window after the last entry. -/
theorem admitted_of_lt (hlog : ∀ e ∈ log, e.1 ≤ now) (hnow : now < a) : admitted log a b = 0 := by
  unfold admitted
  have hnone : log.filter (fun e => a ≤ e.1 ∧ e.1 ≤ b) = [] := by
    rw [List.filter_eq_nil_iff]
    intro e he hwindow
    have hle := hlog e he
    have hwindow := of_decide_eq_true hwindow
    omega
  rw [hnone]
  rfl

/-- The log of a limiter that has `level` left at the time `now`. -/
structure Limited (capacity rate : ℕ) (log : Log) (now level : ℕ) : Prop where
  level_le : level ≤ capacity
  past : ∀ e ∈ log, e.1 ≤ now
  /-- What was admitted since `a` and what is left are within the bound for the window up to now. -/
  since : ∀ a, a ≤ now → admitted log a now + level ≤ capacity + (now - a) * rate
  window : ∀ a b, a ≤ b → admitted log a b ≤ capacity + (b - a) * rate

/-- A limiter starts with an empty log, at any level within its capacity. -/
theorem Limited.start (h : level ≤ capacity) : Limited capacity rate [] now level where
  level_le := h
  past := by simp
  since a _ := by
    rw [admitted_nil, Nat.zero_add]
    exact h.trans (Nat.le_add_right _ _)
  window a b _ := by
    rw [admitted_nil]
    exact Nat.zero_le _

/-- The level may also be lowered. -/
theorem Limited.lower (h : Limited capacity rate log now level) (hle : level' ≤ level) :
    Limited capacity rate log now level' where
  level_le := hle.trans h.level_le
  past := h.past
  since a ha := (Nat.add_le_add_left hle _).trans (h.since a ha)
  window := h.window

/-- **Waiting**: a window that is open since `a` gains as much as the level may grow. -/
theorem Limited.wait (h : Limited capacity rate log now level) (hnow : now ≤ now')
    (hgrow : level' ≤ level + (now' - now) * rate) (hcap : level' ≤ capacity) :
    Limited capacity rate log now' level' where
  level_le := hcap
  past e he := (h.past e he).trans hnow
  since a ha := by
    rw [admitted_of_le h.past hnow]
    by_cases hopen : a ≤ now
    · have hsince := h.since a hopen
      have hsplit : (now' - a) * rate = (now - a) * rate + (now' - now) * rate := by
        rw [← Nat.add_mul]
        congr 1
        omega
      omega
    · -- the window began after the last entry
      rw [admitted_of_lt h.past (Nat.lt_of_not_le hopen), Nat.zero_add]
      exact hcap.trans (Nat.le_add_right _ _)
  window := h.window

/-- **Admitting** an amount that is not above the level. -/
theorem Limited.admit (h : Limited capacity rate log now level) (hn : n ≤ level) :
    Limited capacity rate (log ++ [(now, n)]) now (level - n) where
  level_le := (Nat.sub_le _ _).trans h.level_le
  past := by
    intro e he
    rcases List.mem_append.mp he with hold | hnew
    · exact h.past e hold
    · obtain rfl := List.mem_singleton.mp hnew
      exact Nat.le_refl _
  since a ha := by
    have hsince := h.since a ha
    rw [admitted_concat, if_pos ⟨ha, Nat.le_refl now⟩]
    omega
  window a b hab := by
    have hwindow := h.window a b hab
    rw [admitted_concat]
    by_cases hin : a ≤ now ∧ now ≤ b
    · have hsince := h.since a hin.1
      have hmono : (now - a) * rate ≤ (b - a) * rate :=
        Nat.mul_le_mul_right _ (Nat.sub_le_sub_right hin.2 a)
      rw [if_pos hin, admitted_of_le h.past hin.2]
      omega
    · rw [if_neg hin, Nat.add_zero]
      exact hwindow

end RateLimit
