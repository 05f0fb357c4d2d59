import Mathlib.Data.List.Basic

/-!
# Majorities

Each voter has at most one choice. Two different choices have together at most as many votes as
there are voters, so at most one choice has more than half of them.
-/

namespace Majority

variable {α β : Type*} [DecidableEq β] {choice : α → Option β} {voters : List α}

/-- The number of voters whose choice is `b`. -/
def votes (choice : α → Option β) (voters : List α) (b : β) : ℕ :=
  voters.countP fun v => choice v = some b

theorem votes_add_votes_le {b b' : β} (h : b ≠ b') :
    votes choice voters b + votes choice voters b' ≤ voters.length := by
  induction voters with
  | nil => simp [votes]
  | cons v vs ih =>
    have hone : ¬ (choice v = some b ∧ choice v = some b') := by
      rintro ⟨hb, hb'⟩
      exact h (Option.some.inj (hb.symm.trans hb'))
    simp only [votes, List.countP_cons, List.length_cons, decide_eq_true_eq] at ih ⊢
    split_ifs with hb hb' <;> first | omega | exact absurd ⟨hb, hb'⟩ hone

/-- **At most one choice has a quorum** of more than half of the voters. -/
theorem unique {quorum : ℕ} {b b' : β} (hquorum : voters.length < 2 * quorum)
    (hb : quorum ≤ votes choice voters b) (hb' : quorum ≤ votes choice voters b') : b = b' := by
  by_contra hne
  have hsum : votes choice voters b + votes choice voters b' ≤ voters.length :=
    votes_add_votes_le hne
  omega

/-- One voter changes their choice. -/
theorem votes_set {i : ℕ} {v w : α} (hv : voters[i]? = some v) (b : β) :
    votes choice (voters.set i w) b + (if choice v = some b then 1 else 0)
      = votes choice voters b + (if choice w = some b then 1 else 0) := by
  obtain ⟨hi, rfl⟩ := List.getElem?_eq_some_iff.mp hv
  have hpos : (if choice voters[i] = some b then 1 else 0) ≤ votes choice voters b := by
    split_ifs with hb
    · exact List.countP_pos_iff.mpr ⟨voters[i], List.getElem_mem hi, by simpa using hb⟩
    · exact Nat.zero_le _
  unfold votes at *
  rw [List.countP_set hi]
  simp only [decide_eq_true_eq]
  omega

end Majority
