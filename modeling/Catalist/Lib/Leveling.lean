import Mathlib.Algebra.BigOperators.Group.Finset.Piecewise
import Mathlib.Algebra.Group.Action.Defs
import Mathlib.Algebra.Order.BigOperators.Group.Finset
import Mathlib.Data.Finset.Card
import Mathlib.Data.Prod.Lex

/-!
# Filling buckets level by level

Units are put into buckets with capacities, one after another, always into the first of the least
filled buckets with room. A unit has a position, its level and its bucket, and the units are put in
by increasing position. A filling is fair if no free position is before one that was filled, and
there is one fair filling with a given number of units (`Fair.unique`).

Many units at once may go to the bucket that is next, if they are no more than its part
(`Fair.of_raise`).
-/

namespace Leveling

open Finset

variable {ι : Type*} [LinearOrder ι] {cap b b' b'' : ι → ℕ} {i j k : ι} {s : Finset ι} {n x : ℕ}

/-- The position of a unit. -/
abbrev position (level : ℕ) (i : ι) : ℕ ×ₗ ι := toLex (level, i)

/-- The bucket that the next unit goes to. -/
structure Next (cap b : ι → ℕ) (k : ι) : Prop where
  free : b k < cap k
  le : ∀ j, b j < cap j → position (b k) k ≤ position (b j) j

/-- `b'` comes from `b` by filling the positions in their order. -/
structure Fair (cap b b' : ι → ℕ) : Prop where
  le : ∀ i, b i ≤ b' i
  le_cap : ∀ i, b i < b' i → b' i ≤ cap i
  before : ∀ i j, b i < b' i → b' j < cap j → position (b' i - 1) i < position (b' j) j

theorem position_lt_iff {ℓ ℓ' : ℕ} : position ℓ i < position ℓ' j ↔ ℓ < ℓ' ∨ ℓ = ℓ' ∧ i < j :=
  Prod.Lex.toLex_lt_toLex

theorem position_le_iff {ℓ ℓ' : ℕ} : position ℓ i ≤ position ℓ' j ↔ ℓ < ℓ' ∨ ℓ = ℓ' ∧ i ≤ j :=
  Prod.Lex.toLex_le_toLex

theorem position_mono {ℓ ℓ' : ℕ} (h : ℓ ≤ ℓ') : position ℓ i ≤ position ℓ' i := by
  rw [position_le_iff]
  exact h.lt_or_eq.imp_right fun heq => ⟨heq, le_rfl⟩

theorem Fair.refl : Fair cap b b where
  le _ := le_rfl
  le_cap _ hi := absurd hi (lt_irrefl _)
  before _ _ hi := absurd hi (lt_irrefl _)

/-- One more unit. -/
theorem Fair.unit (h : Fair cap b b') (hk : Next cap b' k) :
    Fair cap b (Function.update b' k (b' k + 1)) where
  le i := by
    by_cases hi : i = k
    · subst hi
      simpa using (h.le i).trans (Nat.le_succ _)
    · simpa [hi] using h.le i
  le_cap i := by
    by_cases hi : i = k
    · subst hi
      simpa using fun _ => Nat.succ_le_of_lt hk.free
    · simpa [hi] using h.le_cap i
  before i j := by
    intro hi hj
    have hnext : position (b' k) k < position (b' k + 1) k :=
      position_lt_iff.mpr (.inl (Nat.lt_succ_self _))
    -- the last unit of the bucket `i` is at most at the position of the new one
    have hlast : position (Function.update b' k (b' k + 1) i - 1) i ≤ position (b' k) k := by
      by_cases hik : i = k
      · subst hik
        simp
      · simp only [Function.update_of_ne hik] at hi ⊢
        exact (h.before i k hi hk.free).le
    by_cases hjk : j = k
    · subst hjk
      simpa using hlast.trans_lt hnext
    · simp only [Function.update_of_ne hjk] at hj ⊢
      by_cases hik : i = k
      · subst hik
        have hne : position (b' i) i ≠ position (b' j) j := by
          intro heq
          exact hjk (congrArg (fun p => (ofLex p).2) heq).symm
        simpa using lt_of_le_of_ne (hk.le j hj) hne
      · simp only [Function.update_of_ne hik] at hi ⊢
        exact h.before i j hi hj

/-- Two fair fillings do not cross. -/
theorem Fair.not_cross (h : Fair cap b b') (h' : Fair cap b b'') (hi : b'' i < b' i)
    (hj : b' j < b'' j) : False := by
  have hfree : b' j < cap j := hj.trans_le (h'.le_cap j ((h.le j).trans_lt hj))
  have hfree' : b'' i < cap i := hi.trans_le (h.le_cap i ((h'.le i).trans_lt hi))
  have hlt := h.before i j ((h'.le i).trans_lt hi) hfree
  have hlt' := h'.before j i ((h.le j).trans_lt hj) hfree'
  have hle : position (b'' i) i ≤ position (b' i - 1) i := position_mono (by omega)
  have hle' : position (b' j) j ≤ position (b'' j - 1) j := position_mono (by omega)
  exact lt_irrefl _ (((hle.trans_lt hlt).trans_le hle').trans hlt')

/-- There is one fair filling with a given number of units. -/
theorem Fair.unique (h : Fair cap b b') (h' : Fair cap b b'') (hs : ∀ i ∉ s, b' i = b'' i)
    (hsum : ∑ i ∈ s, b' i = ∑ i ∈ s, b'' i) : b' = b'' := by
  have hle : ∀ {f g : ι → ℕ}, Fair cap b f → Fair cap b g → (∀ i ∉ s, f i = g i) →
      ∑ i ∈ s, f i = ∑ i ∈ s, g i → ∀ i, f i ≤ g i := by
    intro f g hf hg houtside heq i
    by_contra hi
    rw [not_le] at hi
    have hmem : i ∈ s := by
      by_contra hnot
      exact hi.ne (houtside i hnot).symm
    have hall : ∀ j ∈ s, g j ≤ f j := by
      intro j _
      by_contra hj
      exact hf.not_cross hg hi (not_le.mp hj)
    exact (sum_lt_sum hall ⟨i, hmem, hi⟩).ne heq.symm
  funext i
  exact le_antisymm (hle h h' hs hsum i) (hle h' h (fun j hj => (hs j hj).symm) hsum.symm i)

/--
If a position before the last unit of the raise stays free, the least filled buckets get less than
their part.
-/
theorem sum_le_of_free_before {q : ι} (hi : Next cap b i)
    (hlevel : ∀ j, b j < cap j → b i < b j → b i + x ≤ b j) (hle : ∀ j, b j ≤ b' j)
    (heq : b' i = b i + x) (hx : 0 < x) (his : i ∈ s) (hqs : q ∈ s) (hq : b' q < cap q)
    (hfree : position (b' q) q ≤ position (b i + x - 1) i)
    (hbefore : ∀ j, j ≠ i → b j < b' j →
      b' j ≤ cap j ∧ position (b' j - 1) j < position (b' q) q) :
    ∑ j ∈ s, b' j ≤ ∑ j ∈ s, b j + #{j ∈ s | b j < cap j ∧ b j = b i} * (x - 1) := by
  have hqle := hle q
  have hqi : q ≠ i := by
    rintro rfl
    rw [position_le_iff] at hfree
    omega
  have hnext := hi.le q (by omega)
  rw [position_le_iff] at hfree hnext
  -- a position free before the last unit lies on the level that is being filled
  have hqlevel : b q = b i := by
    by_contra hne
    have hhigher := hlevel q (by omega) (by omega)
    omega
  have hqlt : b' q < b i + x - 1 := by
    rcases hfree with hlt | ⟨-, hqle⟩
    · exact hlt
    · rcases hnext with hlt | ⟨-, hile⟩
      · omega
      · exact absurd (le_antisymm hqle hile) hqi
  -- bucket by bucket: the unit that `q` lacks makes up for the last unit of `i`
  have hpoint : ∀ j ∈ s, b' j + (if j = q then 1 else 0) ≤
      b j + (if b j < cap j ∧ b j = b i then x - 1 else 0) + (if j = i then 1 else 0) := by
    intro j _
    by_cases hji : j = i
    · subst hji
      have hfree := hi.free
      simp [hqi.symm, hfree]
      omega
    · by_cases hjq : j = q
      · subst hjq
        simp [hji, hqlevel ▸ hq.trans_le' hqle, hqlevel]
        omega
      · rcases (hle j).lt_or_eq with hj | hj
        · obtain ⟨hcap, hlast⟩ := hbefore j hji hj
          have hjnext := hi.le j (by omega)
          rw [position_lt_iff] at hlast
          rw [position_le_iff] at hjnext
          have hjlevel : b j = b i := by
            by_contra hne
            have hhigher := hlevel j (by omega) (by omega)
            omega
          simp [hji, hjq, hjlevel ▸ (by omega : b j < cap j), hjlevel]
          omega
        · simp [hji, hjq, hj]
  have hsum := sum_le_sum hpoint
  simp only [sum_add_distrib, sum_ite_eq', his, hqs, if_true, ← sum_filter, sum_const,
    smul_eq_mul] at hsum
  omega

/--
Putting `x` units into the next bucket at once. They are no more than the part of this bucket in the
units that are left, and do not take it above the next level.
-/
theorem Fair.of_raise (hi : Next cap b i) (hcap : b i + x ≤ cap i)
    (hlevel : ∀ j, b j < cap j → b i < b j → b i + x ≤ b j) (hs : ∀ j, b j < cap j → j ∈ s)
    (hshare : #{j ∈ s | b j < cap j ∧ b j = b i} * (x - 1) < n)
    (h : Fair cap (Function.update b i (b i + x)) b')
    (hall : ∀ j, b' j < cap j → ∑ j ∈ s, b' j = ∑ j ∈ s, b j + n) : Fair cap b b' := by
  have hle : ∀ j, b j ≤ b' j := by
    intro j
    have hj := h.le j
    by_cases hji : j = i
    · subst hji
      simp at hj
      omega
    · simpa [hji] using hj
  have hother : ∀ j, j ≠ i → b j < b' j →
      b' j ≤ cap j ∧ ∀ r, b' r < cap r → position (b' j - 1) j < position (b' r) r := by
    intro j hji hj
    have hj' : Function.update b i (b i + x) j < b' j := by simpa [hji] using hj
    exact ⟨h.le_cap j hj', fun r hr => h.before j r hj' hr⟩
  have hmine := h.le i
  rw [Function.update_self] at hmine
  refine ⟨hle, ?_, ?_⟩
  · intro j hj
    by_cases hji : j = i
    · subst hji
      by_cases hmore : b j + x < b' j
      · exact h.le_cap j (by simpa using hmore)
      · omega
    · exact (hother j hji hj).1
  · intro j q hj hq
    by_cases hji : j = i
    · subst hji
      by_cases hmore : b j + x < b' j
      · exact h.before j q (by simpa using hmore) hq
      · -- the units of the raise are the last ones of their bucket
        have heq : b' j = b j + x := by omega
        rw [heq]
        by_contra hlater
        have hqle := hle q
        have hsum := sum_le_of_free_before hi hlevel hle heq (by omega) (hs j hi.free)
          (hs q (by omega)) hq (not_lt.mp hlater)
          fun r hr hrlt => ⟨(hother r hr hrlt).1, (hother r hr hrlt).2 q hq⟩
        have htotal := hall q hq
        omega
    · exact (hother j hji hj).2 q hq

end Leveling
