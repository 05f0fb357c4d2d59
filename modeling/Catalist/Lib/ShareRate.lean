import Mathlib.Algebra.BigOperators.Group.Finset.Basic
import Mathlib.Algebra.BigOperators.Ring.Finset
import Mathlib.Algebra.Order.BigOperators.Group.Finset
import Mathlib.Tactic.Ring

/-!
# Share rates in fixed point

A position is worth `value` and holds `shares`. Its rate is `value * base / shares`, rounded
down. A discount to the rate `m` replaces the value by `shares * m / base` when the rate of the
position is above `m`.

The results compare discounting the members of a group one by one with discounting the group as
one position. When the members are all above `m`, or all at most `m`, the group is on the same
side as its members, and the members together are due at most what the group is due.
-/

namespace ShareRate

open Finset

variable {ι : Type*} {base m value shares : ℕ} {s : Finset ι} {v w : ι → ℕ}

/-- The rate of a position in units of `1 / base`. -/
def rate (base value shares : ℕ) : ℕ := value * base / shares

/-- What a position is due at the rate `m`. -/
def due (base m value shares : ℕ) : ℕ :=
  if m < rate base value shares then shares * m / base else value

theorem lt_rate_iff (hs : 0 < shares) : m < rate base value shares ↔ (m + 1) * shares ≤ value * base := by
  unfold rate
  rw [← Nat.succ_le_iff, Nat.le_div_iff_mul_le hs]

theorem rate_le_iff (hs : 0 < shares) : rate base value shares ≤ m ↔ value * base < (m + 1) * shares := by
  rw [← Nat.not_lt, lt_rate_iff hs, Nat.not_le]

theorem due_of_lt (h : m < rate base value shares) : due base m value shares = shares * m / base :=
  if_pos h

theorem due_of_le (h : rate base value shares ≤ m) : due base m value shares = value :=
  if_neg (Nat.not_lt.mpr h)

/-- The product that a discount forms is at most the scaled value. -/
theorem mul_le_of_lt_rate (h : m < rate base value shares) : shares * m ≤ value * base :=
  calc shares * m ≤ shares * rate base value shares := Nat.mul_le_mul_left _ (Nat.le_of_lt h)
    _ ≤ value * base := Nat.mul_div_le _ _

/-- No more is due than the value. -/
theorem due_le_value (base m value shares : ℕ) :
    due base m value shares ≤ value := by
  rcases Nat.lt_or_ge m (rate base value shares) with hlt | hle
  · rw [due_of_lt hlt]
    refine Nat.div_le_of_le_mul ?_
    rw [Nat.mul_comm base]
    exact mul_le_of_lt_rate hlt
  · rw [due_of_le hle]

/-- No more is due than the shares are worth at the rate `m`, but for its last digit. -/
theorem due_mul_le (hs : 0 < shares) (m value : ℕ) :
    due base m value shares * base ≤ shares * (m + 1) := by
  rcases Nat.lt_or_ge m (rate base value shares) with hlt | hle
  · rw [due_of_lt hlt]
    calc shares * m / base * base ≤ shares * m := Nat.div_mul_le_self _ _
      _ ≤ shares * (m + 1) := Nat.mul_le_mul_left _ (Nat.le_succ m)
  · rw [due_of_le hle, Nat.mul_comm shares]
    exact ((rate_le_iff hs).mp hle).le

/-- Something is due unless the value is zero or the discount rounds it down to zero. -/
theorem due_pos_iff (hbase : 0 < base) :
    0 < due base m value shares ↔
      0 < value ∧ (rate base value shares ≤ m ∨ base ≤ shares * m) := by
  rcases Nat.lt_or_ge m (rate base value shares) with hlt | hle
  · have hvalue : 0 < value := by
      refine Nat.pos_of_ne_zero ?_
      rintro rfl
      simp [rate] at hlt
    rw [due_of_lt hlt, Nat.div_pos_iff]
    constructor
    · rintro ⟨_, hprod⟩
      exact ⟨hvalue, .inr hprod⟩
    · rintro ⟨_, hrate | hprod⟩
      · omega
      · exact ⟨hbase, hprod⟩
  · rw [due_of_le hle]
    exact ⟨fun hvalue => ⟨hvalue, .inl hle⟩, fun h => h.1⟩

/-! ## Groups -/

/-- A group of positions above `m` is above `m`. -/
theorem lt_rate_sum (hne : s.Nonempty) (hs : ∀ i ∈ s, 0 < w i)
    (h : ∀ i ∈ s, m < rate base (v i) (w i)) :
    m < rate base (∑ i ∈ s, v i) (∑ i ∈ s, w i) := by
  have hpos : 0 < ∑ i ∈ s, w i := sum_pos hs hne
  rw [lt_rate_iff hpos, mul_sum, sum_mul]
  exact sum_le_sum fun i hi => (lt_rate_iff (hs i hi)).mp (h i hi)

/-- A group of positions at most at `m` is at most at `m`. -/
theorem rate_sum_le (hne : s.Nonempty) (hs : ∀ i ∈ s, 0 < w i)
    (h : ∀ i ∈ s, rate base (v i) (w i) ≤ m) :
    rate base (∑ i ∈ s, v i) (∑ i ∈ s, w i) ≤ m := by
  have hpos : 0 < ∑ i ∈ s, w i := sum_pos hs hne
  rw [rate_le_iff hpos, mul_sum, sum_mul]
  exact sum_lt_sum_of_nonempty hne fun i hi => (rate_le_iff (hs i hi)).mp (h i hi)

/-- Rounding the parts down loses at least as much as rounding the whole down. -/
theorem sum_div_le (s : Finset ι) (f : ι → ℕ) (c : ℕ) : ∑ i ∈ s, f i / c ≤ (∑ i ∈ s, f i) / c := by
  induction s using Finset.cons_induction with
  | empty => simp
  | cons a s ha ih =>
    rw [sum_cons, sum_cons]
    calc f a / c + ∑ i ∈ s, f i / c ≤ f a / c + (∑ i ∈ s, f i) / c := Nat.add_le_add_left ih _
      _ ≤ (f a + ∑ i ∈ s, f i) / c := Nat.div_add_div_le_add_div

/-- The members of a group on one side of `m` are together due at most what the group is due. -/
theorem sum_due_le (hne : s.Nonempty) (hs : ∀ i ∈ s, 0 < w i)
    (h : (∀ i ∈ s, m < rate base (v i) (w i)) ∨ (∀ i ∈ s, rate base (v i) (w i) ≤ m)) :
    ∑ i ∈ s, due base m (v i) (w i) ≤ due base m (∑ i ∈ s, v i) (∑ i ∈ s, w i) := by
  rcases h with habove | hbelow
  · rw [due_of_lt (lt_rate_sum hne hs habove), sum_mul]
    calc ∑ i ∈ s, due base m (v i) (w i) = ∑ i ∈ s, w i * m / base :=
          sum_congr rfl fun i hi => due_of_lt (habove i hi)
      _ ≤ (∑ i ∈ s, w i * m) / base := sum_div_le s _ base
  · rw [due_of_le (rate_sum_le hne hs hbelow)]
    exact le_of_eq (sum_congr rfl fun i hi => due_of_le (hbelow i hi))

/-! ## The price of a group against the dues of its members -/

/-- The whole is the parts, each rounded down, and what the fractions make together. -/
theorem sum_div_eq (s : Finset ι) (f : ι → ℕ) (c : ℕ) :
    (∑ i ∈ s, f i) / c = (∑ i ∈ s, f i / c) + (∑ i ∈ s, f i % c) / c := by
  rcases Nat.eq_zero_or_pos c with rfl | hc
  · simp
  · have hsplit : ∑ i ∈ s, f i = (∑ i ∈ s, f i / c) * c + ∑ i ∈ s, f i % c := by
      rw [sum_mul, ← sum_add_distrib]
      exact sum_congr rfl fun i _ => (Nat.div_add_mod' (f i) c).symm
    rw [hsplit, Nat.add_comm, Nat.add_mul_div_right _ _ hc, Nat.add_comm]

/--
By how much the price of a group as one position exceeds what its members are due one by one. A
discounted group gains what the fractions make together, and loses what the members at most at `m` are
due beyond the discount. A group that is not discounted gains what its members above `m` lose.
-/
def excess (base m : ℕ) (s : Finset ι) (v w : ι → ℕ) : ℤ :=
  if m < rate base (∑ i ∈ s, v i) (∑ i ∈ s, w i) then
    ((∑ i ∈ s, w i * m % base) / base : ℕ) -
      ∑ i ∈ s with rate base (v i) (w i) ≤ m, ((v i : ℤ) - (w i * m / base : ℕ))
  else ∑ i ∈ s with m < rate base (v i) (w i), ((v i : ℤ) - (w i * m / base : ℕ))

/-- A member on the other side of `m` than its group is where the two differ. -/
theorem due_eq_discount (base m value shares : ℕ) :
    (due base m value shares : ℤ) = (shares * m / base : ℕ) +
      if rate base value shares ≤ m then ((value : ℤ) - (shares * m / base : ℕ)) else 0 := by
  by_cases hrate : rate base value shares ≤ m
  · rw [due_of_le hrate, if_pos hrate, add_sub_cancel]
  · rw [due_of_lt (Nat.not_le.mp hrate), if_neg hrate, add_zero]

theorem due_eq_value (base m value shares : ℕ) :
    (due base m value shares : ℤ) = value -
      if m < rate base value shares then ((value : ℤ) - (shares * m / base : ℕ)) else 0 := by
  by_cases hrate : m < rate base value shares
  · rw [due_of_lt hrate, if_pos hrate, sub_sub_cancel]
  · rw [due_of_le (Nat.not_lt.mp hrate), if_neg hrate, sub_zero]

theorem due_sum_eq (s : Finset ι) (v w : ι → ℕ) :
    (due base m (∑ i ∈ s, v i) (∑ i ∈ s, w i) : ℤ) =
      (∑ i ∈ s, (due base m (v i) (w i) : ℤ)) + excess base m s v w := by
  unfold excess
  rw [sum_filter, sum_filter]
  by_cases hrate : m < rate base (∑ i ∈ s, v i) (∑ i ∈ s, w i)
  · rw [if_pos hrate, due_of_lt hrate, sum_mul, sum_div_eq,
      sum_congr rfl fun i _ => due_eq_discount base m (v i) (w i), sum_add_distrib]
    push_cast
    ring
  · rw [if_neg hrate, due_of_le (Nat.not_lt.mp hrate),
      sum_congr rfl fun i _ => due_eq_value base m (v i) (w i), sum_sub_distrib, sub_add_cancel]
    push_cast
    rfl

/-- A group with all members on one side of `m` has no negative excess. -/
theorem excess_nonneg (hne : s.Nonempty) (hs : ∀ i ∈ s, 0 < w i)
    (h : (∀ i ∈ s, m < rate base (v i) (w i)) ∨ (∀ i ∈ s, rate base (v i) (w i) ≤ m)) :
    0 ≤ excess base m s v w := by
  have hle := sum_due_le hne hs h
  have heq := @due_sum_eq _ base m s v w
  rw [← Nat.cast_sum] at heq
  omega

end ShareRate
