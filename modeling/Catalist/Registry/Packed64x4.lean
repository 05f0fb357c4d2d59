import Catalist.Lib.Checked
import Mathlib.Data.BitVec

/-!
# Packed counters

`Packed64x4.sol`: four counters of 64 bits in a word. The registry's proofs only use the lemmas about
counters: a counter that was set reads back, the others are unchanged, and every counter is below
`2 ^ 64`.
-/

namespace Catalist

open Solidity

def UINT64_MAX : Nat := 0xFFFFFFFFFFFFFFFF

inductive PackedError where
  | packedOverflow
  | mathAddOverflow
  | mathSubUnderflow
deriving DecidableEq, Repr

structure Packed where
  v : BitVec 256
deriving DecidableEq, Repr

namespace Packed

variable (self : Packed) (n : Fin 4)

/-- The shift of the counter at position `n`. -/
def offset (n : Fin 4) : Nat := 64 * n.val

/-- `UINT64_MAX` as a word. -/
def mask : BitVec 256 := 0xFFFFFFFFFFFFFFFF#256

def get : Nat := ((self.v >>> offset n) &&& mask).toNat

def set (x : Nat) : Call PackedError Packed := do
  require (x ≤ UINT64_MAX) .packedOverflow
  return { v := (self.v &&& ~~~(mask <<< offset n)) |||
    ((BitVec.ofNat 256 x &&& mask) <<< offset n) }

def add (x : Nat) : Call PackedError Packed := do
  require (self.get n + x < 2 ^ 256) .mathAddOverflow
  self.set n (self.get n + x)

def sub (x : Nat) : Call PackedError Packed := do
  require (x ≤ self.get n) .mathSubUnderflow
  self.set n (self.get n - x)

/-! ## Bits -/

variable {self n} {self' : Packed} {m : Fin 4} {x : Nat}

theorem getLsbD_mask (i : Nat) : mask.getLsbD i = decide (i < 64) := by
  have hmask : mask = (BitVec.allOnes 64).setWidth 256 := by decide
  rw [hmask, BitVec.getLsbD_setWidth, BitVec.getLsbD_allOnes]
  by_cases h : i < 64
  · have hi : i < 256 := by omega
    simp [h, hi]
  · simp [h]

/-- A bit of a counter is a bit of the word. -/
theorem testBit_get (i : Nat) :
    (self.get n).testBit i = (decide (i < 64) && self.v.getLsbD (64 * n.val + i)) := by
  unfold get offset
  rw [BitVec.testBit_toNat, BitVec.getLsbD_and, BitVec.getLsbD_ushiftRight, getLsbD_mask,
    Bool.and_comm]

theorem get_lt : self.get n < 2 ^ 64 := by
  refine Nat.lt_pow_two_of_testBit _ fun i hi => ?_
  rw [testBit_get]
  simp [Nat.not_lt.mpr hi]

theorem get_le : self.get n ≤ UINT64_MAX := Nat.le_of_lt_succ get_lt

/-- The word that `set` writes, bit by bit. -/
theorem getLsbD_set (h : self.set n x = .ok self') {i : Nat} (hi : i < 256) :
    self'.v.getLsbD i
      = if 64 * n.val ≤ i ∧ i < 64 * n.val + 64 then x.testBit (i - 64 * n.val)
        else self.v.getLsbD i := by
  simp only [set, bind_eq_ok, require_eq_ok, pure_eq_ok] at h
  obtain ⟨_, hx, rfl⟩ := h
  simp only [offset, BitVec.getLsbD_or, BitVec.getLsbD_and, BitVec.getLsbD_not,
    BitVec.getLsbD_shiftLeft, getLsbD_mask, BitVec.getLsbD_ofNat]
  by_cases hlow : i < 64 * n.val
  · simp [hlow, hi, Nat.not_le.mpr hlow]
  · by_cases hhigh : i - 64 * n.val < 64
    · have hrange : 64 * n.val ≤ i ∧ i < 64 * n.val + 64 := by omega
      have hwidth : i - 64 * n.val < 256 := by omega
      simp [hlow, hhigh, hi, hrange, hwidth]
    · have hrange : ¬(64 * n.val ≤ i ∧ i < 64 * n.val + 64) := by omega
      simp [hlow, hhigh, hi, hrange]

/-! ## Counters -/

theorem set_eq_ok_iff : (∃ self', self.set n x = .ok self') ↔ x ≤ UINT64_MAX := by
  simp only [set, bind_eq_ok, require_eq_ok, pure_eq_ok]
  constructor
  · rintro ⟨_, _, hx, _⟩
    exact hx
  · intro hx
    exact ⟨_, (), hx, rfl⟩

theorem get_set (h : self.set n x = .ok self') : self'.get n = x := by
  have hx : x ≤ UINT64_MAX := set_eq_ok_iff.mp ⟨self', h⟩
  refine Nat.eq_of_testBit_eq fun i => ?_
  rw [testBit_get]
  by_cases hi : i < 64
  · have hn := n.isLt
    rw [getLsbD_set h (by omega), if_pos (by omega), Nat.add_sub_cancel_left]
    simp [hi]
  · have hbit : x.testBit i = false := by
      refine Nat.testBit_lt_two_pow (Nat.lt_of_lt_of_le (Nat.lt_succ_of_le hx) ?_)
      exact Nat.pow_le_pow_right (n := 2) (by decide) (by omega : 64 ≤ i)
    simp [hi, hbit]

theorem get_set_of_ne (h : self.set n x = .ok self') (hne : m ≠ n) :
    self'.get m = self.get m := by
  refine Nat.eq_of_testBit_eq fun i => ?_
  rw [testBit_get, testBit_get]
  by_cases hi : i < 64
  · have hm := m.isLt
    rw [getLsbD_set h (by omega), if_neg (by omega)]
  · simp [hi]

/-- The word with a counter changed. -/
structure Updated (p p' : Packed) (n : Fin 4) (x : Nat) : Prop where
  get : p'.get n = x
  get_of_ne : ∀ m, m ≠ n → p'.get m = p.get m

theorem updated_of_set (h : self.set n x = .ok self') : Updated self self' n x where
  get := get_set h
  get_of_ne _ hne := get_set_of_ne h hne

/-- `set` goes through on a value of 64 bits. -/
theorem set_of_le (hx : x ≤ UINT64_MAX) :
    ∃ self', self.set n x = .ok self' ∧ Updated self self' n x := by
  obtain ⟨self', h⟩ := set_eq_ok_iff.mpr hx
  exact ⟨self', h, updated_of_set h⟩

theorem updated_of_add (h : self.add n x = .ok self') : Updated self self' n (self.get n + x) := by
  simp only [add, bind_eq_ok, require_eq_ok] at h
  obtain ⟨_, _, h⟩ := h
  exact updated_of_set h

theorem add_of_le (hx : self.get n + x ≤ UINT64_MAX) :
    ∃ self', self.add n x = .ok self' ∧ Updated self self' n (self.get n + x) := by
  obtain ⟨self', h, hupdated⟩ := set_of_le hx
  refine ⟨self', ?_, hupdated⟩
  have hword : self.get n + x < 2 ^ 256 := by
    unfold UINT64_MAX at hx
    omega
  rw [add, require_of hword, ok_bind]
  exact h

theorem sub_of_le (hx : x ≤ self.get n) :
    ∃ self', self.sub n x = .ok self' ∧ Updated self self' n (self.get n - x) := by
  obtain ⟨self', h, hupdated⟩ := set_of_le (Nat.le_trans (Nat.sub_le _ _) get_le)
  refine ⟨self', ?_, hupdated⟩
  rw [sub, require_of hx, ok_bind]
  exact h

theorem updated_of_sub (h : self.sub n x = .ok self') : Updated self self' n (self.get n - x) := by
  simp only [sub, bind_eq_ok, require_eq_ok] at h
  obtain ⟨_, _, h⟩ := h
  exact updated_of_set h

/-- The sum is checked twice, for the word and for the counter; the second check is the stricter. -/
theorem add_eq_ok_iff : (∃ self', self.add n x = .ok self') ↔ self.get n + x ≤ UINT64_MAX := by
  constructor
  · rintro ⟨self', h⟩
    rw [← (updated_of_add h).get]
    exact get_le
  · intro hx
    obtain ⟨self', h, -⟩ := add_of_le hx
    exact ⟨self', h⟩

theorem sub_eq_ok_iff : (∃ self', self.sub n x = .ok self') ↔ x ≤ self.get n := by
  constructor
  · rintro ⟨self', h⟩
    simp only [sub, bind_eq_ok, require_eq_ok] at h
    obtain ⟨_, hx, -⟩ := h
    exact hx
  · intro hx
    obtain ⟨self', h, -⟩ := sub_of_le hx
    exact ⟨self', h⟩

/-! ## Independence -/

/-- The source multiplies the position in 8 bits. -/
theorem offset_eq (n : Fin 4) : (64#8 * BitVec.ofNat 8 n.val).toNat = offset n := by
  revert n
  decide

/--
**The counters of a word are independent.** Each operation reverts exactly if the new value of its
counter is none of 64 bits; otherwise this counter has the new value and every other one is as before.
-/
theorem counters_independent (self : Packed) (n m : Fin 4) (x : Nat) (hne : m ≠ n) :
    (64#8 * BitVec.ofNat 8 n.val).toNat = offset n ∧
    ((∃ r, self.set n x = .error r) ↔ 2 ^ 64 - 1 < x) ∧
    (∀ self', self.set n x = .ok self' → self'.get n = x ∧ self'.get m = self.get m) ∧
    ((∃ r, self.add n x = .error r) ↔ 2 ^ 64 - 1 < self.get n + x) ∧
    (∀ self', self.add n x = .ok self' →
      self'.get n = self.get n + x ∧ self'.get m = self.get m) ∧
    ((∃ r, self.sub n x = .error r) ↔ self.get n < x) ∧
    (∀ self', self.sub n x = .ok self' →
      self'.get n + x = self.get n ∧ self'.get m = self.get m) := by
  refine ⟨offset_eq n, ?_, fun self' h => ?_, ?_, fun self' h => ?_, ?_, fun self' h => ?_⟩
  · rw [exists_error_iff, set_eq_ok_iff, Nat.not_le]
    rfl
  · exact ⟨get_set h, get_set_of_ne h hne⟩
  · rw [exists_error_iff, add_eq_ok_iff, Nat.not_le]
    rfl
  · have hupdated := updated_of_add h
    exact ⟨hupdated.get, hupdated.get_of_ne m hne⟩
  · rw [exists_error_iff, sub_eq_ok_iff, Nat.not_le]
  · have hupdated := updated_of_sub h
    have hx : x ≤ self.get n := sub_eq_ok_iff.mp ⟨self', h⟩
    refine ⟨?_, hupdated.get_of_ne m hne⟩
    rw [hupdated.get, Nat.sub_add_cancel hx]

/-- A word whose counters are all at their maximum has no room in the last of them. -/
theorem counters_independent_full : ∃ r, Packed.add ⟨BitVec.allOnes 256⟩ 3 1 = .error r :=
  (counters_independent ⟨BitVec.allOnes 256⟩ 3 2 1 (by decide)).2.2.2.1.mpr (by decide +kernel)

end Packed

end Catalist
