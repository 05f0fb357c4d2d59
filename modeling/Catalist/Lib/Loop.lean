import Catalist.Lib.Checked

/-!
# While loops

A loop whose body may revert. The number of rounds is not known in advance, so `whileLoop` runs a
bounded number of them and says whether that was enough; `Runs` is the meaning of a loop that ends
without reverting. A loop with a measure that every round lowers ends within that many rounds
(`exists_whileLoop`), and then it succeeds exactly as `Runs` says.
-/

namespace Solidity

variable {ε σ : Type} {cond : σ → Prop} [DecidablePred cond] {body : σ → Call ε σ} {s s' : σ}
  {n m : Nat} {r : Call ε σ}

/-- `while (cond) body`, for at most the given number of rounds; `none` if it has not ended then. -/
def whileLoop (cond : σ → Prop) [DecidablePred cond] (body : σ → Call ε σ) :
    Nat → σ → Option (Call ε σ)
  | 0, s => if cond s then none else some (.ok s)
  | n + 1, s =>
    if cond s then
      match body s with
      | .ok s' => whileLoop cond body n s'
      | .error r => some (.error r)
    else some (.ok s)

/-- The loop leads from a state to another one in which its condition fails. -/
inductive Runs (cond : σ → Prop) (body : σ → Call ε σ) : σ → σ → Prop where
  | done {s : σ} : ¬ cond s → Runs cond body s s
  | round {s s₁ s' : σ} : cond s → body s = .ok s₁ → Runs cond body s₁ s' → Runs cond body s s'

/-- More rounds do not change the outcome. -/
theorem whileLoop_mono (h : whileLoop cond body n s = some r) (hle : n ≤ m) :
    whileLoop cond body m s = some r := by
  induction n generalizing s m with
  | zero =>
    by_cases hc : cond s
    · simp [whileLoop, hc] at h
    · cases m with
      | zero => exact h
      | succ m => simpa [whileLoop, hc] using h
  | succ n ih =>
    obtain ⟨m, rfl⟩ : ∃ k, m = k + 1 := ⟨m - 1, by omega⟩
    by_cases hc : cond s
    · cases hb : body s with
      | error e => simpa [whileLoop, hc, hb] using h
      | ok s₁ =>
        simp only [whileLoop, hc, hb, if_true] at h ⊢
        exact ih h (by omega)
    · simpa [whileLoop, hc] using h

/-- A loop that ended without a revert is a run. -/
theorem runs_of_whileLoop (h : whileLoop cond body n s = some (.ok s')) : Runs cond body s s' := by
  induction n generalizing s with
  | zero =>
    by_cases hc : cond s
    · simp [whileLoop, hc] at h
    · simp only [whileLoop, hc, if_false, Option.some.injEq, Except.ok.injEq] at h
      exact h ▸ .done hc
  | succ n ih =>
    by_cases hc : cond s
    · cases hb : body s with
      | error e => simp [whileLoop, hc, hb] at h
      | ok s₁ =>
        simp only [whileLoop, hc, hb, if_true] at h
        exact .round hc hb (ih h)
    · simp only [whileLoop, hc, if_false, Option.some.injEq, Except.ok.injEq] at h
      exact h ▸ .done hc

/-- A run is what the loop does within enough rounds. -/
theorem Runs.exists_whileLoop (h : Runs cond body s s') :
    ∃ n, whileLoop cond body n s = some (.ok s') := by
  induction h with
  | done hc => exact ⟨0, by simp [whileLoop, hc]⟩
  | round hc hb _ ih =>
    obtain ⟨n, hn⟩ := ih
    exact ⟨n + 1, by simpa [whileLoop, hc, hb] using hn⟩

theorem exists_whileLoop_of_measure (measure : σ → Nat)
    (hdec : ∀ s s', cond s → body s = .ok s' → measure s' < measure s) (hn : measure s < n) :
    ∃ r, whileLoop cond body n s = some r := by
  induction n generalizing s with
  | zero => omega
  | succ n ih =>
    by_cases hc : cond s
    · cases hb : body s with
      | error e => exact ⟨.error e, by simp [whileLoop, hc, hb]⟩
      | ok s₁ =>
        have hlt := hdec s s₁ hc hb
        obtain ⟨r, hr⟩ := ih (s := s₁) (by omega)
        exact ⟨r, by simpa [whileLoop, hc, hb] using hr⟩
    · exact ⟨.ok s, by simp [whileLoop, hc]⟩

/--
**Termination rule.** A loop each round of which lowers a measure ends within that many rounds,
and its successful outcomes are the runs.
-/
theorem exists_whileLoop (measure : σ → Nat)
    (hdec : ∀ s s', cond s → body s = .ok s' → measure s' < measure s) (s : σ) :
    ∃ r, (∀ n, measure s < n → whileLoop cond body n s = some r) ∧
      ∀ s', r = .ok s' ↔ Runs cond body s s' := by
  obtain ⟨r, hr⟩ := exists_whileLoop_of_measure measure hdec (Nat.lt_succ_self (measure s))
  refine ⟨r, fun n hn => whileLoop_mono hr hn, fun s' => ⟨?_, fun hruns => ?_⟩⟩
  · rintro rfl
    exact runs_of_whileLoop hr
  · obtain ⟨n, hn⟩ := hruns.exists_whileLoop
    have hr' := whileLoop_mono hr (Nat.le_max_left _ n)
    rw [whileLoop_mono hn (Nat.le_max_right _ n)] at hr'
    exact (Option.some.inj hr').symm

end Solidity
