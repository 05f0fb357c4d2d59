import Catalist.Lib.Checked

/-!
# Pre- and postconditions of calls

`Ensures allowed x post` says how a call can end: it returns a value that satisfies `post`, or it
reverts in one of the ways that `allowed` admits. The rules below take a sequence of calls apart
from the front; the facts that an earlier call ensures are there to rule out failures of the
later ones.
-/

namespace Solidity

variable {ε α β : Type} {allowed : Revert ε → Prop} {x : Call ε α} {post : α → Prop}

/-- The call returns a value with `post`, or it reverts as `allowed`. -/
structure Ensures (allowed : Revert ε → Prop) (x : Call ε α) (post : α → Prop) : Prop where
  of_ok : ∀ {a}, x = .ok a → post a
  of_error : ∀ {r}, x = .error r → allowed r

theorem ensures_ok {a : α} (h : post a) : Ensures allowed (.ok a) post where
  of_ok heq := by
    cases heq
    exact h
  of_error heq := by cases heq

theorem ensures_error {r : Revert ε} (h : allowed r) : Ensures allowed (.error r) post where
  of_ok heq := by cases heq
  of_error heq := by
    cases heq
    exact h

theorem ensures_pure {a : α} (h : post a) : Ensures allowed (pure a) post := ensures_ok h

theorem Ensures.mono {post' : α → Prop} (h : Ensures allowed x post) (hpost : ∀ a, post a → post' a) :
    Ensures allowed x post' where
  of_ok heq := hpost _ (h.of_ok heq)
  of_error heq := h.of_error heq

theorem Ensures.and {allowed' : Revert ε → Prop} {post' : α → Prop} (h : Ensures allowed x post)
    (h' : Ensures allowed' x post') : Ensures allowed x fun a => post a ∧ post' a where
  of_ok heq := ⟨h.of_ok heq, h'.of_ok heq⟩
  of_error heq := h.of_error heq

/-- The rule for sequences. -/
theorem Ensures.bind {f : α → Call ε β} {post' : β → Prop} (h : Ensures allowed x post)
    (hf : ∀ a, post a → Ensures allowed (f a) post') : Ensures allowed (x >>= f) post' := by
  cases x with
  | ok a => exact hf a (h.of_ok rfl)
  | error r => exact ensures_error (h.of_error rfl)

/-- The rule for sequences, with the value that the first call returns. -/
theorem Ensures.bind_ok {f : α → Call ε β} {post' : β → Prop} (h : Ensures allowed x post)
    (hf : ∀ a, x = .ok a → Ensures allowed (f a) post') : Ensures allowed (x >>= f) post' := by
  cases x with
  | ok a => exact hf a rfl
  | error r => exact ensures_error (h.of_error rfl)

/-- The rule for a call whose result is changed afterwards. -/
theorem Ensures.map {f : α → β} {post' : β → Prop} (h : Ensures allowed x post)
    (hf : ∀ a, post a → post' (f a)) : Ensures allowed (f <$> x) post' := by
  cases x with
  | ok a => exact ensures_ok (hf a (h.of_ok rfl))
  | error r => exact ensures_error (h.of_error rfl)

/-- The rule for a call to a contract with other errors. -/
theorem Ensures.within {ε' : Type} {f : ε → ε'} {allowed' : Revert ε' → Prop}
    (h : Ensures allowed x post) (hf : ∀ r, allowed r → allowed' (r.map f)) :
    Ensures allowed' (within f x) post := by
  cases x with
  | ok a => exact ensures_ok (h.of_ok rfl)
  | error r => exact ensures_error (hf r (h.of_error rfl))

/-- A call for which no failure is allowed succeeds. -/
theorem Ensures.exists_ok (h : Ensures (fun _ => False) x post) : ∃ a, x = .ok a ∧ post a := by
  cases x with
  | ok a => exact ⟨a, rfl, h.of_ok rfl⟩
  | error r => exact (h.of_error rfl).elim

theorem ensures_of_exists (h : ∃ a, x = .ok a) : Ensures allowed x fun _ => True := by
  obtain ⟨a, rfl⟩ := h
  exact ensures_ok trivial

/-! ## The operations -/

theorem ensures_require {c : Prop} [Decidable c] {e : ε} (he : allowed (.error e)) :
    Ensures allowed (require c e) fun _ => c := by
  unfold require
  split
  · next hc => exact ensures_ok hc
  · exact ensures_error he

/-- A guard that only fails in a way that is allowed then. -/
theorem ensures_require_unless {c : Prop} [Decidable c] {e : ε} (he : ¬ c → allowed (.error e)) :
    Ensures allowed (require c e) fun _ => c := by
  unfold require
  split
  · next hc => exact ensures_ok hc
  · next hc => exact ensures_error (he hc)

theorem ensures_require_of {c : Prop} [Decidable c] {e : ε} (hc : c) :
    Ensures allowed (require c e) fun _ => True := by
  rw [require_of hc]
  exact ensures_ok trivial

theorem ensures_assertion {c : Prop} [Decidable c] (ha : allowed (.panic .assertion)) :
    Ensures allowed (ensure c) fun _ => c := by
  unfold ensure
  split
  · next hc => exact ensures_ok hc
  · exact ensures_error ha

theorem ensures_ensure {c : Prop} [Decidable c] (hc : c) :
    Ensures allowed (ensure c) fun _ => True := by
  rw [ensure_of hc]
  exact ensures_ok trivial

theorem ensures_checkedAdd {w a b : Nat} (ho : allowed (.panic .overflow)) :
    Ensures allowed (checkedAdd w a b) fun c => c = a + b := by
  unfold checkedAdd
  split
  · exact ensures_ok rfl
  · exact ensures_error ho

theorem ensures_checkedMul {w a b : Nat} (ho : allowed (.panic .overflow)) :
    Ensures allowed (checkedMul w a b) fun c => c = a * b := by
  unfold checkedMul
  split
  · exact ensures_ok rfl
  · exact ensures_error ho

theorem ensures_checkedSub {a b : Nat} (h : b ≤ a) :
    Ensures allowed (checkedSub a b) fun c => c = a - b := by
  rw [checkedSub_of h]
  exact ensures_ok rfl

theorem ensures_checkedDiv {a b : Nat} (h : b ≠ 0) :
    Ensures allowed (checkedDiv a b) fun c => c = a / b := by
  rw [checkedDiv_of h]
  exact ensures_ok rfl

theorem ensures_subtraction {a b : Nat} (hu : allowed (.panic .underflow)) :
    Ensures allowed (checkedSub a b) fun c => c = a - b := by
  unfold checkedSub
  split
  · exact ensures_ok rfl
  · exact ensures_error hu

theorem ensures_division {a b : Nat} (hz : allowed (.panic .divisionByZero)) :
    Ensures allowed (checkedDiv a b) fun c => c = a / b := by
  unfold checkedDiv
  split
  · exact ensures_error hz
  · exact ensures_ok rfl

/-! ## Where every panic is allowed -/

section panics

variable {ε α : Type} {allowed : Revert ε → Prop} (hpanic : ∀ p, allowed (.panic p)) {w a b i : Nat}
include hpanic

theorem ensures_of_panics {x : Call ε α} (h : ∀ e, x ≠ .error (.error e)) :
    Ensures allowed x fun _ => True where
  of_ok _ := trivial
  of_error {r} heq := by
    cases r with
    | panic p => exact hpanic p
    | error e => exact absurd heq (h e)

theorem ensures_add : Ensures allowed (checkedAdd w a b) fun _ => True := by
  refine ensures_of_panics hpanic fun e h => ?_
  unfold checkedAdd at h
  split at h <;> cases h

theorem ensures_mul : Ensures allowed (checkedMul w a b) fun _ => True := by
  refine ensures_of_panics hpanic fun e h => ?_
  unfold checkedMul at h
  split at h <;> cases h

theorem ensures_sub : Ensures allowed (checkedSub a b) fun _ => True := by
  refine ensures_of_panics hpanic fun e h => ?_
  unfold checkedSub at h
  split at h <;> cases h

theorem ensures_div : Ensures allowed (checkedDiv a b) fun _ => True := by
  refine ensures_of_panics hpanic fun e h => ?_
  unfold checkedDiv at h
  split at h <;> cases h

theorem ensures_mod : Ensures allowed (checkedMod a b) fun _ => True := by
  refine ensures_of_panics hpanic fun e h => ?_
  unfold checkedMod at h
  split at h <;> cases h

theorem ensures_assert {c : Prop} [Decidable c] : Ensures allowed (ensure c) fun _ => True := by
  refine ensures_of_panics hpanic fun e h => ?_
  unfold ensure at h
  split at h <;> cases h

theorem ensures_getIndex {xs : List α} : Ensures allowed (getIndex xs i) fun _ => True := by
  refine ensures_of_panics hpanic fun e h => ?_
  unfold getIndex at h
  split at h <;> cases h

theorem ensures_setIndex {xs : List α} {y : α} : Ensures allowed (setIndex xs i y) fun _ => True := by
  refine ensures_of_panics hpanic fun e h => ?_
  unfold setIndex at h
  split at h <;> cases h

end panics

/-! ## Entries, one after the other -/

section entries

variable {ε σ α : Type} {Inv : σ → Prop} {Valid : σ → α → Prop} {f : σ → α → Call ε σ}

/--
If an entry goes through exactly when it is valid, a list of them fails exactly when one of them is
not valid at its turn.
-/
theorem foldlM_fails_iff (hvalid : ∀ s a, Inv s → ((∃ s', f s a = .ok s') ↔ Valid s a))
    (hkeeps : ∀ s a s', Inv s → f s a = .ok s' → Inv s') {s : σ} (h : Inv s) (entries : List α) :
    (∃ r, entries.foldlM f s = .error r) ↔
      ∃ i s' a, entries[i]? = some a ∧ (entries.take i).foldlM f s = .ok s' ∧ ¬ Valid s' a := by
  induction entries generalizing s with
  | nil => simp [pure, Except.pure]
  | cons a entries ih =>
    rw [List.foldlM_cons]
    cases hfirst : f s a with
    | error r =>
      have hnot : ¬ Valid s a := by
        intro hcon
        obtain ⟨s', hs'⟩ := (hvalid s a h).mpr hcon
        rw [hfirst] at hs'
        cases hs'
      exact iff_of_true ⟨r, rfl⟩ ⟨0, s, a, rfl, rfl, hnot⟩
    | ok s₁ =>
      rw [ok_bind, ih (hkeeps s a s₁ h hfirst)]
      constructor
      · rintro ⟨i, s', b, hb, hrun, hnot⟩
        refine ⟨i + 1, s', b, by simpa using hb, ?_, hnot⟩
        rw [List.take_succ_cons, List.foldlM_cons, hfirst, ok_bind]
        exact hrun
      · rintro ⟨i, s', b, hb, hrun, hnot⟩
        cases i with
        | zero =>
          -- the first entry went through, so it was valid
          obtain rfl : a = b := by simpa using hb
          obtain rfl : s = s' := by simpa [pure, Except.pure] using hrun
          exact absurd ((hvalid s a h).mp ⟨s₁, hfirst⟩) hnot
        | succ i =>
          rw [List.take_succ_cons, List.foldlM_cons, hfirst, ok_bind] at hrun
          exact ⟨i, s', b, by simpa using hb, hrun, hnot⟩

end entries

end Solidity
