import Mathlib.Data.List.Nodup
import Mathlib.Data.Nat.Periodic
import Mathlib.Tactic.Common

/-!
# Turns on a circle

`n` positions on a circle, and a window of `q` of them that begins at position `f % n` in round
`f`. A position is in the window exactly if it is less than `q` past its begin, the window lists
every position once, and in any `n` rounds in a row each position gets `q` turns.
-/

namespace Rotation

variable {n a q x j : ℕ}

/-- How far a position is past `a`, going around. -/
def offset (n a x : ℕ) : ℕ := (x + n - a) % n

/-- The `q` positions from `a` on, going around. -/
def window (n a q : ℕ) : List ℕ := (List.range' a q).map (· % n)

/-! ## Offsets -/

theorem offset_eq (ha : a < n) (hx : x < n) :
    offset n a x = if a ≤ x then x - a else x + n - a := by
  unfold offset
  split
  · next hle =>
    have hsum : x + n - a = x - a + n := by omega
    rw [hsum, Nat.add_mod_right, Nat.mod_eq_of_lt (by omega)]
  · next hgt => exact Nat.mod_eq_of_lt (by omega)

theorem offset_lt (ha : a < n) : offset n a x < n := Nat.mod_lt _ (by omega)

/-- The position `j` past `a` is at offset `j`. -/
theorem offset_add_mod (ha : a < n) (hj : j < n) : offset n a ((a + j) % n) = j := by
  rw [offset_eq ha (Nat.mod_lt _ (by omega))]
  rcases Nat.lt_or_ge (a + j) n with hlt | hge
  · rw [Nat.mod_eq_of_lt hlt, if_pos (by omega)]
    omega
  · rw [Nat.mod_eq_sub_mod hge, Nat.mod_eq_of_lt (by omega), if_neg (by omega)]
    omega

/-- Going the offset on from `a` leads to the position. -/
theorem add_offset_mod (ha : a < n) (hx : x < n) : (a + offset n a x) % n = x := by
  rw [offset_eq ha hx]
  split
  · next hle => rw [Nat.add_sub_cancel' hle, Nat.mod_eq_of_lt hx]
  · next hgt =>
    rw [Nat.add_sub_cancel' (by omega), Nat.add_mod_right, Nat.mod_eq_of_lt hx]

/-- The place that is as far before `x` as `x` is past `a` is `a`. -/
theorem offset_offset (ha : a < n) (hx : x < n) : offset n (offset n a x) x = a := by
  have hlt := offset_lt (x := x) ha
  rw [offset_eq hlt hx]
  rw [offset_eq ha hx] at hlt ⊢
  split_ifs <;> omega

/-! ## The window -/

@[simp] theorem length_window : (window n a q).length = q := by simp [window]

theorem window_succ : window n a (q + 1) = a % n :: window n (a + 1) q := by
  simp [window, List.range'_succ]

theorem lt_of_mem_window (hn : 0 < n) (hx : x ∈ window n a q) : x < n := by
  obtain ⟨i, -, rfl⟩ := List.mem_map.mp hx
  exact Nat.mod_lt i hn

theorem mem_window (ha : a < n) (hq : q ≤ n) (hx : x < n) :
    x ∈ window n a q ↔ offset n a x < q := by
  simp only [window, List.mem_map, List.mem_range'_1]
  constructor
  · rintro ⟨i, ⟨hle, hlt⟩, rfl⟩
    obtain ⟨j, rfl⟩ := Nat.exists_eq_add_of_le hle
    rw [offset_add_mod ha (by omega)]
    omega
  · intro hlt
    exact ⟨a + offset n a x, ⟨by omega, by omega⟩, add_offset_mod ha hx⟩

theorem nodup_window (ha : a < n) (hq : q ≤ n) : (window n a q).Nodup := by
  refine List.Nodup.map_on ?_ List.nodup_range'
  intro i hi i' hi' heq
  rw [List.mem_range'_1] at hi hi'
  obtain ⟨j, rfl⟩ := Nat.exists_eq_add_of_le hi.1
  obtain ⟨j', rfl⟩ := Nat.exists_eq_add_of_le hi'.1
  have hoffset := congrArg (offset n a) heq
  rw [offset_add_mod ha (by omega), offset_add_mod ha (by omega)] at hoffset
  rw [hoffset]

/-! ## Rounds -/

/-- In `n` rounds from the first on, the window meets a position in `q` of them. -/
theorem card_turns_range (hx : x < n) (hq : q ≤ n) :
    ((Finset.range n).filter fun f => offset n f x < q).card = q := by
  conv_rhs => rw [← Finset.card_range q]
  -- the round `f` and the offset of `x` in it determine each other in the same way
  refine Finset.card_nbij' (fun f => offset n f x) (fun j => offset n j x) ?_ ?_ ?_ ?_
  · intro f hf
    rw [Finset.mem_coe, Finset.mem_filter, Finset.mem_range] at hf
    simpa using hf.2
  · intro j hj
    have hj : j < q := by simpa using hj
    have hjn : j < n := by omega
    rw [Finset.mem_coe, Finset.mem_filter, Finset.mem_range]
    exact ⟨offset_lt hjn, by rw [offset_offset hjn hx]; exact hj⟩
  · intro f hf
    rw [Finset.mem_coe, Finset.mem_filter, Finset.mem_range] at hf
    exact offset_offset hf.1 hx
  · intro j hj
    have hj : j < q := by simpa using hj
    exact offset_offset (by omega) hx

/-- **Fairness.** In any `n` rounds in a row each position gets `q` turns. -/
theorem card_turns (hx : x < n) (hq : q ≤ n) (first : ℕ) :
    ((Finset.Ico first (first + n)).filter fun f => offset n (f % n) x < q).card = q := by
  have hperiodic : Function.Periodic (fun f => offset n (f % n) x < q) n := by
    intro f
    simp only [Nat.add_mod_right]
  rw [Nat.filter_Ico_card_eq_of_periodic _ _ _ hperiodic, Nat.count_eq_card_filter_range]
  calc ((Finset.range n).filter fun f => offset n (f % n) x < q).card
      = ((Finset.range n).filter fun f => offset n f x < q).card := by
        refine congrArg Finset.card (Finset.filter_congr fun f hf => ?_)
        rw [Nat.mod_eq_of_lt (Finset.mem_range.mp hf)]
    _ = q := card_turns_range hx hq

end Rotation
