import Mathlib.Algebra.Order.Ring.Nat
import Mathlib.Tactic.Ring

/-!
# Shares of a pool

A pool of `P` has `S` shares, and `n` shares are worth `n * P / S`, rounded down. The pool is
written as the pair of its totals, and two pools are compared by their price per share without
division: `P / S ≤ P' / S'` is `P * S' ≤ P' * S`.
-/

namespace SharePool

variable {P S P' S' P'' S'' n n' v : ℕ}

/-- What `n` shares are worth. -/
def worth (P S n : ℕ) : ℕ := n * P / S

/-- A share of the first pool is worth at most a share of the second. -/
def PriceLe (P S P' S' : ℕ) : Prop := P * S' ≤ P' * S

theorem PriceLe.refl : PriceLe P S P S := Nat.le_refl _

theorem PriceLe.trans (hS : 0 < S') (h : PriceLe P S P' S') (h' : PriceLe P' S' P'' S'') :
    PriceLe P S P'' S'' := by
  refine Nat.le_of_mul_le_mul_right ?_ hS
  calc P * S'' * S' = P * S' * S'' := by ring
    _ ≤ P' * S * S'' := Nat.mul_le_mul_right _ h
    _ = P' * S'' * S := by ring
    _ ≤ P'' * S' * S := Nat.mul_le_mul_right _ h'
    _ = P'' * S * S' := by ring

/-- A holding that does not shrink keeps its worth when the price does not fall. -/
theorem worth_le_worth (hS : 0 < S) (hS' : 0 < S') (hn : n ≤ n') (h : PriceLe P S P' S') :
    worth P S n ≤ worth P' S' n' := by
  unfold worth
  rw [Nat.le_div_iff_mul_le hS']
  -- compare after multiplying by the old number of shares
  refine Nat.le_of_mul_le_mul_right ?_ hS
  calc n * P / S * S' * S = n * P / S * S * S' := by ring
    _ ≤ n * P * S' := Nat.mul_le_mul_right _ (Nat.div_mul_le_self _ _)
    _ = n * (P * S') := by ring
    _ ≤ n' * (P' * S) := Nat.mul_le_mul hn h
    _ = n' * P' * S := by ring

/-- Whoever pays `v` and gets shares at the current price, rounded down, does not lower it. -/
theorem priceLe_of_mint : PriceLe P S (P + v) (S + v * S / P) :=
  calc P * (S + v * S / P) = P * S + P * (v * S / P) := Nat.mul_add _ _ _
    _ ≤ P * S + v * S := Nat.add_le_add_left (Nat.mul_div_le _ _) _
    _ = (P + v) * S := by ring

/-! ## Fees

A fee of `F` is taken of a pool worth `V` by minting shares. Both are in the same unit, which may be
finer than that of the pool.
-/

variable {V F r f c : ℕ}

/-- The number of shares to mint, such that they are worth the fee. -/
def sharesForFee (V S F : ℕ) : ℕ := F * S / (V - F)

/-- The minted shares are worth at most the fee. -/
theorem sharesForFee_mul_le (h : F < V) : sharesForFee V S F * V ≤ F * (S + sharesForFee V S F) := by
  have hdiv : sharesForFee V S F * (V - F) ≤ F * S := Nat.div_mul_le_self _ _
  have hV : V = (V - F) + F := (Nat.sub_add_cancel h.le).symm
  calc sharesForFee V S F * V = sharesForFee V S F * (V - F) + sharesForFee V S F * F := by
        rw [← Nat.mul_add, ← hV]
    _ ≤ F * S + sharesForFee V S F * F := Nat.add_le_add_right hdiv _
    _ = F * (S + sharesForFee V S F) := by ring

/-- One share more would be worth more than the fee. -/
theorem lt_sharesForFee_succ_mul (h : F < V) : F * S < (sharesForFee V S F + 1) * (V - F) := by
  rw [Nat.mul_comm (_ + 1)]
  exact Nat.lt_mul_div_succ _ (Nat.sub_pos_of_lt h)

/-- A fee of at most the gain `r` leaves the price where it was or above. -/
theorem priceLe_of_fee (hc : 0 < c) (hf : f ≤ c) :
    PriceLe P S (P + r) (S + sharesForFee ((P + r) * c) S (r * f)) := by
  have hdiv : sharesForFee ((P + r) * c) S (r * f) * ((P + r) * c - r * f) ≤ r * f * S :=
    Nat.div_mul_le_self _ _
  have hfee : r * f ≤ r * c := Nat.mul_le_mul_left r hf
  have hrest : P * c ≤ (P + r) * c - r * f := by
    rw [Nat.add_mul]
    omega
  have hgain : P * sharesForFee ((P + r) * c) S (r * f) ≤ r * S := by
    refine Nat.le_of_mul_le_mul_right ?_ hc
    calc P * sharesForFee ((P + r) * c) S (r * f) * c = sharesForFee ((P + r) * c) S (r * f) * (P * c) := by ring
      _ ≤ sharesForFee ((P + r) * c) S (r * f) * ((P + r) * c - r * f) := Nat.mul_le_mul_left _ hrest
      _ ≤ r * f * S := hdiv
      _ ≤ r * c * S := Nat.mul_le_mul_right S hfee
      _ = r * S * c := by ring
  unfold PriceLe
  rw [Nat.mul_add, Nat.add_mul P r S]
  exact Nat.add_le_add_left hgain _

end SharePool
