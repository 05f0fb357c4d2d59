import Mathlib.Algebra.BigOperators.Intervals
import Mathlib.Algebra.Order.BigOperators.Group.Finset
import Mathlib.Data.Fintype.BigOperators

/-!
# Sums over ledgers

A ledger is a function into `ℕ`; an operation changes it at one point or two. These lemmas say
what that does to the sum over a finite set, and how a sum of differences telescopes.
-/

namespace Ledger

open Finset

variable {α : Type*} [DecidableEq α]

/-- Changing one entry of a ledger, in a form without subtraction. -/
theorem sum_update_add {s : Finset α} {f : α → ℕ} {a : α} (v : ℕ) (ha : a ∈ s) :
    (∑ x ∈ s, Function.update f a v x) + f a = (∑ x ∈ s, f x) + v := by
  rw [sum_update_of_mem ha, ← sum_sdiff (singleton_subset_iff.mpr ha), sum_singleton]
  omega

/-- Move `n` from the entry of `a` to the entry of `b`, which is read after the first change. -/
def move (f : α → ℕ) (a b : α) (n : ℕ) : α → ℕ :=
  let g := Function.update f a (f a - n)
  Function.update g b (g b + n)

/-- Moving keeps the sum, also from an entry to itself. -/
theorem sum_move {s : Finset α} {f : α → ℕ} {a b : α} {n : ℕ} (ha : a ∈ s) (hb : b ∈ s)
    (hn : n ≤ f a) : ∑ x ∈ s, move f a b n x = ∑ x ∈ s, f x := by
  have htake := sum_update_add (s := s) (f := f) (f a - n) ha
  have hgive := sum_update_add (s := s) (f := Function.update f a (f a - n))
    (Function.update f a (f a - n) b + n) hb
  simp only [move]
  omega

/-- What one entry is after a move, in a form without subtraction. -/
theorem move_add {f : α → ℕ} {a b : α} {n : ℕ} (hn : n ≤ f a) (x : α) :
    move f a b n x + (if x = a then n else 0) = f x + (if x = b then n else 0) := by
  simp only [move, Function.update_apply]
  by_cases ha : x = a
  · subst ha
    by_cases hb : x = b
    · subst hb
      simp only [if_true]
      omega
    · rw [if_neg hb, if_neg hb]
      simp only [if_true]
      omega
  · by_cases hb : x = b
    · subst hb
      rw [if_neg ha, if_neg ha]
      simp
    · rw [if_neg hb, if_neg hb]
      simp [ha]

theorem move_of_ne {f : α → ℕ} {a b x : α} {n : ℕ} (ha : x ≠ a) (hb : x ≠ b) :
    move f a b n x = f x := by
  simp only [move, Function.update_of_ne ha, Function.update_of_ne hb]

/-- Only the entry that is moved from can decrease. -/
theorem le_move {f : α → ℕ} {a b x : α} {n : ℕ} (ha : x ≠ a) : f x ≤ move f a b n x := by
  rcases eq_or_ne x b with rfl | hb
  · simp only [move, Function.update_self, Function.update_of_ne ha]
    exact Nat.le_add_right _ _
  · exact (move_of_ne ha hb).ge

/-- The entry that is moved to gains what was moved. -/
theorem move_to {f : α → ℕ} {a b : α} {n : ℕ} (hab : b ≠ a) : move f a b n b = f b + n := by
  simp only [move, Function.update_self, Function.update_of_ne hab]

theorem move_zero (f : α → ℕ) (a b : α) : move f a b 0 = f := by
  simp [move]

omit [DecidableEq α] in
/-- One entry is at most the whole. -/
theorem le_sum {s : Finset α} {f : α → ℕ} {a : α} (ha : a ∈ s) : f a ≤ ∑ x ∈ s, f x :=
  single_le_sum (fun _ _ => Nat.zero_le _) ha

/-- Taking an element out of the set takes its entry out of the sum. -/
theorem sum_erase_add {s : Finset α} {f : α → ℕ} {a : α} (ha : a ∈ s) :
    (∑ x ∈ s.erase a, f x) + f a = ∑ x ∈ s, f x :=
  Finset.sum_erase_add s f ha

/-- The differences of a function that grows on `[a, b]` add up to the total growth. -/
theorem sum_Ioc_tsub {f : ℕ → ℕ} {a b : ℕ} (hab : a ≤ b)
    (hf : ∀ i, a ≤ i → i < b → f i ≤ f (i + 1)) :
    (∑ i ∈ Ioc a b, (f i - f (i - 1))) + f a = f b := by
  induction b, hab using Nat.le_induction with
  | base => simp
  | succ b hab ih =>
    have hstep : f b ≤ f (b + 1) := hf b hab (by omega)
    have hrest := ih fun i hai hib => hf i hai (by omega)
    rw [sum_Ioc_succ_top (by omega), Nat.add_sub_cancel]
    omega

/-- A function that grows at every step of `[a, b]` grows over the whole. -/
theorem le_of_steps {f : ℕ → ℕ} {a b : ℕ} (hab : a ≤ b)
    (hf : ∀ i, a ≤ i → i < b → f i ≤ f (i + 1)) : f a ≤ f b := by
  have := sum_Ioc_tsub hab hf
  omega

theorem lt_of_steps {f : ℕ → ℕ} {a b : ℕ} (hab : a < b)
    (hf : ∀ i, a ≤ i → i < b → f i < f (i + 1)) : f a < f b :=
  Nat.lt_of_lt_of_le (hf a (Nat.le_refl a) hab)
    (le_of_steps hab fun i hi hib => Nat.le_of_lt (hf i (by omega) hib))

omit [DecidableEq α] in
/-- Rounding each part down gives at most the whole, rounded down. -/
theorem sum_map_div_le (xs : List α) (f : α → ℕ) (d : ℕ) :
    (xs.map fun x => f x / d).sum ≤ (xs.map f).sum / d := by
  induction xs with
  | nil => exact Nat.zero_le _
  | cons x xs ih =>
    rw [List.map_cons, List.sum_cons, List.map_cons, List.sum_cons]
    exact (Nat.add_le_add_left ih _).trans Nat.div_add_div_le_add_div

/-- The sum of a list over its positions. -/
theorem sum_range_getD (ns : List ℕ) : ∑ i ∈ range ns.length, ns.getD i 0 = ns.sum := by
  induction ns with
  | nil => rfl
  | cons n ns ih =>
    rw [List.length_cons, sum_range_succ', List.sum_cons, ← ih, Nat.add_comm]
    rfl

omit [DecidableEq α] in
/-- Entry by entry, where the implication only holds for the entries of the list. -/
theorem forall₂_of_mem {β : Type*} {R S : α → β → Prop} {xs : List α} {ys : List β}
    (h : List.Forall₂ R xs ys) (himp : ∀ x ∈ xs, ∀ y, R x y → S x y) : List.Forall₂ S xs ys := by
  induction h with
  | nil => exact .nil
  | cons hxy _ ih =>
    exact .cons (himp _ List.mem_cons_self _ hxy)
      (ih fun x hx => himp x (List.mem_cons_of_mem _ hx))

omit [DecidableEq α] in
theorem getD_map_le {xs : List α} {f : α → ℕ} {b : ℕ} (hf : ∀ x, f x ≤ b) (i : ℕ) :
    (xs.map f).getD i 0 ≤ b := by
  induction xs generalizing i with
  | nil => exact Nat.zero_le b
  | cons x xs ih =>
    cases i with
    | zero => exact hf x
    | succ i => exact ih i

end Ledger
