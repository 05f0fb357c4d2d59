import Mathlib.Algebra.BigOperators.Intervals
import Mathlib.Data.List.Chain

/-!
# Consecutive numbers in groups

The numbers after `a` are put into groups of consecutive ones, and a list has the last number of
each group. `sum` adds up a function of the groups. `ends joined a n` are the groups of the `n`
numbers after `a`, when a number goes into the group of the one before it exactly if it is `joined`
to it.
-/

namespace Grouping

open Finset

variable {M : Type*} [AddCommMonoid M] {f : ℕ → ℕ → M} {a b n : ℕ} {es : List ℕ}

/-- The groups begin after `a`, and none of them is empty. -/
def Ascending (a : ℕ) (es : List ℕ) : Prop := (a :: es).IsChain (· < ·)

theorem ascending_cons : Ascending a (b :: es) ↔ a < b ∧ Ascending b es := List.isChain_cons_cons

theorem ascending_nil : Ascending a [] := List.isChain_singleton _

/-- The last group does not depend on what stands for it in an empty list. -/
theorem getLastD_of_ne_nil (hne : es ≠ []) (a b : ℕ) : es.getLastD a = es.getLastD b := by
  cases es with
  | nil => exact absurd rfl hne
  | cons e es => rw [List.getLastD_cons, List.getLastD_cons]

theorem Ascending.le_last (h : Ascending a es) : a ≤ es.getLastD a := by
  induction es generalizing a with
  | nil => exact Nat.le_refl a
  | cons b es ih =>
    obtain ⟨hlt, hrest⟩ := ascending_cons.mp h
    rw [List.getLastD_cons]
    exact hlt.le.trans (ih hrest)

theorem Ascending.lt_last (h : Ascending a es) (hne : es ≠ []) : a < es.getLastD a := by
  cases es with
  | nil => exact absurd rfl hne
  | cons b es =>
    obtain ⟨hlt, hrest⟩ := ascending_cons.mp h
    rw [List.getLastD_cons]
    exact hlt.trans_le hrest.le_last

theorem Ascending.concat (h : Ascending a es) (hb : es.getLastD a < b) :
    Ascending a (es ++ [b]) := by
  induction es generalizing a with
  | nil => exact ascending_cons.mpr ⟨hb, ascending_nil⟩
  | cons e es ih =>
    obtain ⟨hlt, hrest⟩ := ascending_cons.mp h
    rw [List.getLastD_cons] at hb
    exact ascending_cons.mpr ⟨hlt, ih hrest hb⟩

/-- What holds of all groups up to the last one holds along the list. -/
theorem Ascending.chain {R : ℕ → ℕ → Prop} (h : Ascending a es)
    (hR : ∀ b c, a ≤ b → b < c → c ≤ es.getLastD a → R b c) : (a :: es).IsChain R := by
  induction es generalizing a with
  | nil => exact List.isChain_singleton _
  | cons b es ih =>
    obtain ⟨hlt, hrest⟩ := ascending_cons.mp h
    rw [List.getLastD_cons] at hR
    refine List.isChain_cons_cons.mpr ⟨hR a b (Nat.le_refl a) hlt hrest.le_last, ih hrest ?_⟩
    intro c d hbc hcd hd
    exact hR c d (hlt.le.trans hbc) hcd hd

/-- The last group may end later. -/
theorem Ascending.dropLast_concat (h : Ascending a es) (hb : es.getLastD a < b) :
    Ascending a (es.dropLast ++ [b]) := by
  induction es generalizing a with
  | nil => exact ascending_cons.mpr ⟨hb, ascending_nil⟩
  | cons e es ih =>
    obtain ⟨hlt, hrest⟩ := ascending_cons.mp h
    rw [List.getLastD_cons] at hb
    cases es with
    | nil => exact ascending_cons.mpr ⟨hlt.trans hb, ascending_nil⟩
    | cons e' es => exact ascending_cons.mpr ⟨hlt, ih hrest hb⟩

/-! ## Sums over the groups -/

/-- The sum of `f` over the groups, each given by the number before its first and its last. -/
def sum (f : ℕ → ℕ → M) : ℕ → List ℕ → M
  | _, [] => 0
  | a, b :: es => f a b + sum f b es

theorem sum_congr {g : ℕ → ℕ → M} (h : (a :: es).IsChain fun b c => f b c = g b c) :
    sum f a es = sum g a es := by
  induction es generalizing a with
  | nil => rfl
  | cons b es ih =>
    obtain ⟨heq, hrest⟩ := List.isChain_cons_cons.mp h
    rw [sum, sum, heq, ih hrest]

/-- What a function grows by from group to group is what it grows by over all. -/
theorem sum_tsub {f : ℕ → ℕ} (h : (a :: es).IsChain fun b c => f b ≤ f c) :
    sum (fun b c => f c - f b) a es + f a = f (es.getLastD a) := by
  induction es generalizing a with
  | nil => exact Nat.zero_add _
  | cons b es ih =>
    obtain ⟨hle, hrest⟩ := List.isChain_cons_cons.mp h
    rw [sum, List.getLastD_cons, ← ih hrest]
    omega

/-- Sums over the members add up to the sum over all numbers. -/
theorem sum_Ioc (h : Ascending a es) (w : ℕ → M) :
    sum (fun b c => ∑ i ∈ Ioc b c, w i) a es = ∑ i ∈ Ioc a (es.getLastD a), w i := by
  induction es generalizing a with
  | nil => simp [sum]
  | cons b es ih =>
    obtain ⟨hlt, hrest⟩ := ascending_cons.mp h
    rw [sum, ih hrest, List.getLastD_cons]
    exact sum_Ioc_consecutive w hlt.le hrest.le_last

theorem sum_add (f g : ℕ → ℕ → M) (a : ℕ) (es : List ℕ) :
    sum (fun b c => f b c + g b c) a es = sum f a es + sum g a es := by
  induction es generalizing a with
  | nil => exact (add_zero 0).symm
  | cons b es ih =>
    rw [sum, sum, sum, ih]
    exact add_add_add_comm _ _ _ _

/-- A bound for every group bounds the sum. -/
theorem sum_le {f g : ℕ → ℕ → ℕ} (h : (a :: es).IsChain fun b c => f b c ≤ g b c) :
    sum f a es ≤ sum g a es := by
  induction es generalizing a with
  | nil => exact Nat.le_refl 0
  | cons b es ih =>
    obtain ⟨hle, hrest⟩ := List.isChain_cons_cons.mp h
    exact Nat.add_le_add hle (ih hrest)

theorem sum_mul (f : ℕ → ℕ → ℕ) (c a : ℕ) (es : List ℕ) :
    sum (fun b d => f b d * c) a es = sum f a es * c := by
  induction es generalizing a with
  | nil => exact (Nat.zero_mul c).symm
  | cons b es ih => rw [sum, sum, ih, Nat.add_mul]

theorem cast_sum (f : ℕ → ℕ → ℕ) (a : ℕ) (es : List ℕ) :
    ((sum f a es : ℕ) : ℤ) = sum (fun b c => (f b c : ℤ)) a es := by
  induction es generalizing a with
  | nil => rfl
  | cons b es ih =>
    show ((f a b + sum f b es : ℕ) : ℤ) = _
    rw [Int.natCast_add, ih]
    rfl

/-! ## Grouping joined numbers -/

section Joined

variable (joined : ℕ → Prop) [DecidablePred joined]

/-- The ends of the groups of the `n` numbers after `a`. -/
def ends (a : ℕ) : ℕ → List ℕ
  | 0 => []
  | n + 1 =>
    if n ≠ 0 ∧ joined (a + n + 1) then (ends a n).dropLast ++ [a + n + 1]
    else ends a n ++ [a + n + 1]

variable {joined}

theorem ends_of_joined (hn : n ≠ 0) (h : joined (a + n + 1)) :
    ends joined a (n + 1) = (ends joined a n).dropLast ++ [a + n + 1] :=
  if_pos ⟨hn, h⟩

theorem ends_of_not_joined (h : n = 0 ∨ ¬ joined (a + n + 1)) :
    ends joined a (n + 1) = ends joined a n ++ [a + n + 1] :=
  if_neg fun hj => h.elim hj.1 fun hnot => hnot hj.2

theorem getLastD_ends (a n : ℕ) : (ends joined a n).getLastD a = a + n := by
  cases n with
  | zero => rfl
  | succ n =>
    by_cases h : n ≠ 0 ∧ joined (a + n + 1)
    · rw [ends_of_joined h.1 h.2, List.getLastD_concat]
      rfl
    · rw [ends, if_neg h, List.getLastD_concat]
      rfl

theorem ends_eq_nil_iff : ends joined a n = [] ↔ n = 0 := by
  cases n with
  | zero => simp [ends]
  | succ n =>
    unfold ends
    split <;> simp

theorem ascending_ends (a n : ℕ) : Ascending a (ends joined a n) := by
  induction n with
  | zero => exact ascending_nil
  | succ n ih =>
    by_cases h : n ≠ 0 ∧ joined (a + n + 1)
    · rw [ends_of_joined h.1 h.2]
      refine ih.dropLast_concat ?_
      rw [getLastD_ends]
      exact Nat.lt_succ_self _
    · rw [ends, if_neg h]
      refine ih.concat ?_
      rw [getLastD_ends]
      exact Nat.lt_succ_self _

/-- More numbers make no fewer groups. -/
theorem length_ends_le_succ (a n : ℕ) :
    (ends joined a n).length ≤ (ends joined a (n + 1)).length := by
  by_cases h : n ≠ 0 ∧ joined (a + n + 1)
  · rw [ends_of_joined h.1 h.2, List.length_append, List.length_dropLast, List.length_singleton]
    omega
  · rw [ends, if_neg h, List.length_append]
    exact Nat.le_add_right _ _

end Joined

end Grouping
