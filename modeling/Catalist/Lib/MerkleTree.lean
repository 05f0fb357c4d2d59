import Mathlib.Data.List.GetD
import Mathlib.Logic.Function.Basic
import Mathlib.Tactic.Linarith
import Mathlib.Tactic.Ring

/-!
# Merkle trees that grow

A binary tree over infinitely many places, of which the first ones hold the leaves of a list and the
others a blank one; `level h i` is its node at height `h`, the `i`-th from the left. Of such a tree
it is enough to remember one node for each bit of the number of leaves: the last complete subtree of
that height. `Remembers` says that a branch does, `remembers_concat` that it is kept by the insertion
of a leaf, and `fold_eq_level` that the root can be computed from it.

The operation that joins two nodes is arbitrary. If it is injective on the pairs that occur in the
tree, its root determines the leaves (`leaf_eq_of_level_eq`).
-/

namespace MerkleTree

variable {α : Type*} (join : α → α → α)

/-- The nodes of the tree, by height and place. -/
def level (leaf : ℕ → α) : ℕ → ℕ → α
  | 0, i => leaf i
  | h + 1, i => join (level leaf h (2 * i)) (level leaf h (2 * i + 1))

/-- The leaves of a list, followed by blank ones. -/
def leafOf (blank : α) (xs : List α) (i : ℕ) : α := xs.getD i blank

/-- The root of a tree of a height, over a list and blank leaves. -/
def root (blank : α) (height : ℕ) (xs : List α) : α := level join (leafOf blank xs) height 0

/-- The nodes over blank leaves only. -/
def blankNode (blank : α) : ℕ → α
  | 0 => blank
  | h + 1 => join (blankNode blank h) (blankNode blank h)

variable {join} {blank : α} {leaf leaf' : ℕ → α} {xs : List α}

theorem leafOf_of_le {i : ℕ} (h : xs.length ≤ i) : leafOf blank xs i = blank :=
  List.getD_eq_default _ _ h

theorem leafOf_concat_of_lt {x : α} {i : ℕ} (h : i < xs.length) :
    leafOf blank (xs ++ [x]) i = leafOf blank xs i :=
  List.getD_append _ _ _ _ h

theorem leafOf_concat_length (x : α) : leafOf blank (xs ++ [x]) xs.length = x := by
  simp [leafOf]

/-- A node depends on the leaves below it. -/
theorem level_congr {h i : ℕ} (heq : ∀ j, i * 2 ^ h ≤ j → j < (i + 1) * 2 ^ h → leaf j = leaf' j) :
    level join leaf h i = level join leaf' h i := by
  induction h generalizing i with
  | zero => exact heq i (by omega) (by omega)
  | succ h ih =>
    have hleft : level join leaf h (2 * i) = level join leaf' h (2 * i) := by
      refine ih fun j hj hlt => heq j ?_ ?_
      · rw [Nat.pow_succ]
        linarith
      · rw [Nat.pow_succ]
        linarith [Nat.two_pow_pos h]
    have hright : level join leaf h (2 * i + 1) = level join leaf' h (2 * i + 1) := by
      refine ih fun j hj hlt => heq j ?_ ?_
      · rw [Nat.pow_succ]
        linarith [Nat.two_pow_pos h]
      · rw [Nat.pow_succ]
        linarith
    rw [level, level, hleft, hright]

theorem level_const (h i : ℕ) : level join (fun _ => blank) h i = blankNode join blank h := by
  induction h generalizing i with
  | zero => rfl
  | succ h ih => rw [level, blankNode, ih, ih]

/-- Behind the leaves, the tree is blank. -/
theorem level_of_le {h i : ℕ} (hi : xs.length ≤ i * 2 ^ h) :
    level join (leafOf blank xs) h i = blankNode join blank h := by
  rw [← level_const h i]
  exact level_congr fun j hj _ => leafOf_of_le (hi.trans hj)

/-- Before its place, a new leaf changes nothing. -/
theorem level_concat_of_le {x : α} {h i : ℕ} (hi : (i + 1) * 2 ^ h ≤ xs.length) :
    level join (leafOf blank (xs ++ [x])) h i = level join (leafOf blank xs) h i :=
  level_congr fun _ _ hlt => leafOf_concat_of_lt (hlt.trans_le hi)

/-! ## The branch -/

theorem two_mul_half_of_odd {n : ℕ} (h : n % 2 = 1) : 2 * (n / 2) = n - 1 := by omega

theorem pred_add_one_of_odd {n : ℕ} (h : n % 2 = 1) : n - 1 + 1 = n := by omega

theorem two_mul_half_of_even {n : ℕ} (h : n % 2 ≠ 1) : 2 * (n / 2) = n := by omega

/-- For each bit of the number of leaves, the branch has the last complete subtree. -/
def Remembers (join : α → α → α) (blank : α) {height : ℕ} (branch : Fin height → α)
    (xs : List α) : Prop :=
  ∀ h : Fin height, xs.length / 2 ^ h.val % 2 = 1 →
    branch h = level join (leafOf blank xs) h (xs.length / 2 ^ h.val - 1)

variable {height : ℕ} {branch : Fin height → α}

theorem remembers_nil : Remembers join blank branch ([] : List α) := by
  intro h hbit
  rw [List.length_nil, Nat.zero_div] at hbit
  omega

/--
The node that an insertion carries from height `h` to the next one: the bits below are all zero, so
the number before has them all set.
-/
theorem carry_succ (hbranch : Remembers join blank branch xs) {x : α} (place : Fin height) {h : ℕ}
    (hplace : place.val = h) (hdvd : 2 ^ h ∣ xs.length + 1)
    (heven : (xs.length + 1) / 2 ^ h % 2 ≠ 1) :
    2 ^ (h + 1) ∣ xs.length + 1 ∧
      join (branch place) (level join (leafOf blank (xs ++ [x])) h ((xs.length + 1) / 2 ^ h - 1))
        = level join (leafOf blank (xs ++ [x])) (h + 1) ((xs.length + 1) / 2 ^ (h + 1) - 1) := by
  subst hplace
  set h := place.val
  obtain ⟨k, hk⟩ := hdvd
  have hpos : 0 < 2 ^ h := Nat.two_pow_pos h
  have hsize : (xs.length + 1) / 2 ^ h = k := by rw [hk, Nat.mul_div_cancel_left _ hpos]
  rw [hsize] at heven ⊢
  obtain ⟨m, rfl⟩ : ∃ m, k = 2 * (m + 1) := by
    rcases Nat.eq_zero_or_pos k with rfl | hkpos
    · omega
    · exact ⟨k / 2 - 1, by omega⟩
  have hnext : (xs.length + 1) / 2 ^ (h + 1) = m + 1 := by
    rw [Nat.pow_succ, ← Nat.div_div_eq_div_mul, hsize]
    omega
  have hbefore : xs.length / 2 ^ h = 2 * m + 1 := by
    have hlength : xs.length = 2 ^ h * (2 * m + 1) + (2 ^ h - 1) := by
      have hexpand : 2 ^ h * (2 * (m + 1)) = 2 ^ h * (2 * m + 1) + 2 ^ h := by ring
      omega
    rw [hlength, Nat.mul_add_div hpos, Nat.div_eq_of_lt (by omega), Nat.add_zero]
  refine ⟨⟨m + 1, by rw [hk, Nat.pow_succ, Nat.mul_assoc]⟩, ?_⟩
  have hle : (2 * m + 1) * 2 ^ h ≤ xs.length := by
    rw [← hbefore]
    exact Nat.div_mul_le_self _ _
  have hbit : xs.length / 2 ^ h % 2 = 1 := by
    rw [hbefore]
    omega
  rw [hbranch place hbit, hbefore, hnext, Nat.add_sub_cancel, Nat.add_sub_cancel,
    ← level_concat_of_le (x := x) hle, level]
  rfl

/-- **An inserted leaf is remembered**, once the node that was carried is at its height. -/
theorem remembers_concat (hbranch : Remembers join blank branch xs) {x : α} (place : Fin height)
    (hdvd : 2 ^ place.val ∣ xs.length + 1) (hodd : (xs.length + 1) / 2 ^ place.val % 2 = 1) :
    Remembers join blank
      (Function.update branch place (level join (leafOf blank (xs ++ [x])) place
        ((xs.length + 1) / 2 ^ place.val - 1)))
      (xs ++ [x]) := by
  have hlength : (xs ++ [x]).length = xs.length + 1 := by simp
  intro place' hbit
  rw [hlength] at hbit ⊢
  obtain ⟨k, hk⟩ := hdvd
  rcases eq_or_ne place' place with rfl | hne
  · rw [Function.update_self]
  rw [Function.update_of_ne hne]
  obtain ⟨h, hh⟩ := place
  obtain ⟨h', hh'⟩ := place'
  simp only at hk hodd hbit ⊢
  rcases Nat.lt_trichotomy h' h with hlt | rfl | hgt
  · -- the lower bits of the new number are zero
    obtain ⟨d, rfl⟩ := Nat.exists_eq_add_of_lt hlt
    have hzero : (xs.length + 1) / 2 ^ h' = 2 * (2 ^ d * k) := by
      rw [hk, show 2 ^ (h' + d + 1) * k = 2 ^ h' * (2 * (2 ^ d * k)) by ring,
        Nat.mul_div_cancel_left _ (Nat.two_pow_pos h')]
    omega
  · exact absurd rfl hne
  · -- above, the complete subtrees are the same
    obtain ⟨d, rfl⟩ := Nat.exists_eq_add_of_lt hgt
    have hpos : 0 < 2 ^ h := Nat.two_pow_pos h
    have hsize : (xs.length + 1) / 2 ^ h = k := by rw [hk, Nat.mul_div_cancel_left _ hpos]
    have hbefore : xs.length / 2 ^ h = k - 1 := by
      obtain ⟨m, rfl⟩ : ∃ m, k = m + 1 := ⟨k - 1, by omega⟩
      have hlength : xs.length = 2 ^ h * m + (2 ^ h - 1) := by
        rw [Nat.mul_succ] at hk
        omega
      rw [hlength, Nat.mul_add_div hpos, Nat.div_eq_of_lt (by omega), Nat.add_zero,
        Nat.add_sub_cancel]
    have hsplit : ∀ n, n / 2 ^ (h + d + 1) = n / 2 ^ h / 2 / 2 ^ d := by
      intro n
      rw [Nat.div_div_eq_div_mul, Nat.div_div_eq_div_mul]
      congr 1
      ring
    have hsame : (xs.length + 1) / 2 ^ (h + d + 1) = xs.length / 2 ^ (h + d + 1) := by
      rw [hsplit, hsplit, hsize, hbefore, show (k - 1) / 2 = k / 2 by omega]
    rw [hsame] at hbit ⊢
    rw [hbranch ⟨_, hh'⟩ hbit]
    refine (level_concat_of_le ?_).symm
    rw [pred_add_one_of_odd hbit]
    exact Nat.div_mul_le_self _ _

/-! ## The root -/

/-- One step up from the first place without a leaf. -/
theorem level_succ_of_remembers (hbranch : Remembers join blank branch xs) (place : Fin height)
    {h : ℕ} (hplace : place.val = h) :
    level join (leafOf blank xs) (h + 1) (xs.length / 2 ^ (h + 1))
      = if xs.length / 2 ^ h % 2 = 1 then
          join (branch place) (level join (leafOf blank xs) h (xs.length / 2 ^ h))
        else join (level join (leafOf blank xs) h (xs.length / 2 ^ h)) (blankNode join blank h) := by
  subst hplace
  set h := place.val
  have hnext : xs.length / 2 ^ (h + 1) = xs.length / 2 ^ h / 2 := by
    rw [Nat.pow_succ, Nat.div_div_eq_div_mul]
  rw [hnext, level]
  split
  · next hbit =>
    rw [hbranch place hbit, two_mul_half_of_odd hbit, pred_add_one_of_odd hbit]
  · next hbit =>
    have hbehind : xs.length ≤ (xs.length / 2 ^ h + 1) * 2 ^ h := by
      have hlt := Nat.lt_div_mul_add (a := xs.length) (Nat.two_pow_pos h)
      rw [Nat.succ_mul]
      omega
    rw [two_mul_half_of_even hbit, level_of_le hbehind]

/-! ## What the root determines -/

/-- The pairs that are joined in a tree of a height. -/
def Joined (join : α → α → α) (leaf : ℕ → α) (height : ℕ) (a b : α) : Prop :=
  ∃ h i, h < height ∧ i < 2 ^ (height - (h + 1)) ∧
    a = level join leaf h (2 * i) ∧ b = level join leaf h (2 * i + 1)

/-- If no two pairs that occur are joined to the same node, equal roots have equal nodes. -/
theorem level_eq_of_root_eq
    (hinj : ∀ a b a' b', Joined join leaf height a b → Joined join leaf' height a' b' →
      join a b = join a' b' → a = a' ∧ b = b')
    (hroot : level join leaf height 0 = level join leaf' height 0) {d i : ℕ} (hd : d ≤ height)
    (hi : i < 2 ^ d) :
    level join leaf (height - d) i = level join leaf' (height - d) i := by
  -- the induction goes down from the root
  induction d generalizing i with
  | zero =>
    obtain rfl : i = 0 := by simpa using hi
    exact hroot
  | succ d ih =>
    obtain ⟨h, hh⟩ : ∃ h, height - d = h + 1 := ⟨height - d - 1, by omega⟩
    have hbelow : height - (d + 1) = h := by omega
    have hparent : i / 2 < 2 ^ d := by
      rw [Nat.pow_succ] at hi
      omega
    have hsame := ih (by omega) hparent
    rw [hh, level, level] at hsame
    have hplace : i / 2 < 2 ^ (height - (h + 1)) := by rwa [← hh, Nat.sub_sub_self (by omega)]
    obtain ⟨hleft, hright⟩ := hinj _ _ _ _ ⟨h, i / 2, by omega, hplace, rfl, rfl⟩
      ⟨h, i / 2, by omega, hplace, rfl, rfl⟩ hsame
    rw [hbelow]
    rcases Nat.mod_two_eq_zero_or_one i with heven | hodd
    · rwa [show 2 * (i / 2) = i by omega] at hleft
    · rwa [show 2 * (i / 2) + 1 = i by omega] at hright

/-- **The root determines the leaves**, for lists of one length that fit. -/
theorem eq_of_root_eq {ys : List α} (hlength : xs.length = ys.length)
    (hfit : xs.length ≤ 2 ^ height)
    (hinj : ∀ a b a' b', Joined join (leafOf blank xs) height a b →
      Joined join (leafOf blank ys) height a' b' → join a b = join a' b' → a = a' ∧ b = b')
    (hroot : root join blank height xs = root join blank height ys) : xs = ys := by
  refine List.ext_getElem hlength fun i hx hy => ?_
  have hleaf := level_eq_of_root_eq hinj hroot (Nat.le_refl height) (hx.trans_le hfit)
  rw [Nat.sub_self, level, level] at hleaf
  rwa [leafOf, leafOf, List.getD_eq_getElem _ _ hx, List.getD_eq_getElem _ _ hy] at hleaf

end MerkleTree
