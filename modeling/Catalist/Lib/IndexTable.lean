import Mathlib.Data.List.Nodup
import Mathlib.Data.List.Perm.Basic
import Mathlib.Logic.Function.Basic

/-!
# Arrays with an index

A list without duplicates together with the positions of its elements, kept as 1-based numbers
so that 0 means absent. An element is removed by moving the last one into its place.
-/

namespace IndexTable

variable {α : Type*} {xs : List α}

/-- Put the last element at position `i` and shorten the list by one. -/
def swapRemove (xs : List α) (i : ℕ) : List α :=
  match xs.getLast? with
  | some last => (xs.set i last).dropLast
  | none => []

theorem swapRemove_concat (ys : List α) (last : α) (i : ℕ) :
    swapRemove (ys ++ [last]) i = if i < ys.length then ys.set i last else ys := by
  simp only [swapRemove, List.getLast?_concat]
  split
  · next h =>
    rw [List.set_append_left _ _ h]
    simp
  · next h =>
    rw [List.set_append_right _ _ (Nat.le_of_not_lt h)]
    rcases Nat.eq_zero_or_pos (i - ys.length) with hzero | hpos
    · simp [hzero]
    · rw [List.set_eq_of_length_le (by simpa [Nat.succ_le_iff] using hpos)]
      simp

theorem swapRemove_of_getLast {last : α} (hlast : xs[xs.length - 1]? = some last) (i : ℕ) :
    (xs.set i last).dropLast = swapRemove xs i := by
  rw [← List.getLast?_eq_getElem?] at hlast
  simp only [swapRemove, hlast]

theorem set_of_getElem? {i : ℕ} {x : α} (h : xs[i]? = some x) : xs.set i x = xs := by
  obtain ⟨hi, rfl⟩ := List.getElem?_eq_some_iff.mp h
  exact List.set_getElem_self hi

/-- Removal takes out the element at the position, up to order. -/
theorem cons_swapRemove_perm {i : ℕ} {x : α} (h : xs[i]? = some x) :
    (x :: swapRemove xs i).Perm xs := by
  obtain ⟨hi, rfl⟩ := List.getElem?_eq_some_iff.mp h
  rcases List.eq_nil_or_concat' xs with rfl | ⟨ys, last, rfl⟩
  · simp at hi
  · rw [swapRemove_concat]
    split
    · next hlt =>
      rw [List.getElem_append_left hlt, List.set_eq_take_append_cons_drop, if_pos hlt]
      have hys : ys.take i ++ ys[i] :: ys.drop (i + 1) = ys := by simp
      calc List.Perm (ys[i] :: (ys.take i ++ last :: ys.drop (i + 1)))
            (ys[i] :: last :: (ys.take i ++ ys.drop (i + 1))) := List.perm_middle.cons _
        List.Perm _ (last :: ys[i] :: (ys.take i ++ ys.drop (i + 1))) := List.Perm.swap _ _ _
        List.Perm _ (last :: (ys.take i ++ ys[i] :: ys.drop (i + 1))) :=
          List.perm_middle.symm.cons _
        List.Perm _ (ys ++ [last]) := by
          rw [hys]
          exact (List.perm_append_singleton last ys).symm
    · next hge =>
      have hlast : i = ys.length := by
        simp at hi
        omega
      subst hlast
      simpa using (List.perm_append_singleton last ys).symm

theorem length_swapRemove {i : ℕ} (h : i < xs.length) :
    (swapRemove xs i).length = xs.length - 1 := by
  have hperm := (cons_swapRemove_perm (List.getElem?_eq_getElem h)).length_eq
  rw [List.length_cons] at hperm
  omega

/-- What removal does to a count. -/
theorem countP_swapRemove {i : ℕ} {x : α} (p : α → Bool) (h : xs[i]? = some x) :
    (swapRemove xs i).countP p + (if p x then 1 else 0) = xs.countP p := by
  rw [← (cons_swapRemove_perm h).countP_eq p, List.countP_cons]

theorem mem_of_mem_swapRemove {i : ℕ} {y : α} (hi : i < xs.length) (h : y ∈ swapRemove xs i) :
    y ∈ xs :=
  (cons_swapRemove_perm (List.getElem?_eq_getElem hi)).subset (List.mem_cons_of_mem _ h)

theorem getElem?_swapRemove {i j : ℕ} {last : α} (hi : i < xs.length)
    (hlast : xs[xs.length - 1]? = some last) :
    (swapRemove xs i)[j]? =
      if j + 1 < xs.length then if j = i then some last else xs[j]? else none := by
  rcases List.eq_nil_or_concat' xs with rfl | ⟨ys, a, rfl⟩
  · simp at hi
  · obtain rfl : a = last := by simpa using hlast
    have hj : j + 1 < (ys ++ [a]).length ↔ j < ys.length := by simp
    rw [swapRemove_concat]
    by_cases hjlt : j < ys.length
    · rw [if_pos (hj.mpr hjlt), List.getElem?_append_left hjlt]
      split
      · next hlt =>
        rw [List.getElem?_set]
        rcases eq_or_ne j i with rfl | hne
        · simp [hjlt]
        · simp [hne, hne.symm]
      · next hge => rw [if_neg (by omega)]
    · rw [if_neg (fun h => hjlt (hj.mp h))]
      split <;> simp [Nat.le_of_not_lt hjlt]

/-- Positions before the removed one keep their elements. -/
theorem take_swapRemove {i k : ℕ} (hi : i < xs.length) (hk : k ≤ i) :
    (swapRemove xs i).take k = xs.take k := by
  refine List.ext_getElem? fun j => ?_
  rw [List.getElem?_take, List.getElem?_take]
  split
  · next hj =>
    obtain ⟨last, hlast⟩ : ∃ last, xs[xs.length - 1]? = some last :=
      ⟨_, List.getElem?_eq_getElem (by omega)⟩
    rw [getElem?_swapRemove hi hlast, if_pos (by omega), if_neg (by omega)]
  · rfl

/-! ## Removing a range -/

/-- Remove the `count` elements from position `start` on, the last of them first. -/
def removeRange (start : ℕ) : ℕ → List α → List α
  | 0, xs => xs
  | count + 1, xs => removeRange start count (swapRemove xs (start + count))

/-- The elements before the range stay. -/
theorem take_removeRange {start count k : ℕ} (h : start + count ≤ xs.length) (hk : k ≤ start) :
    (removeRange start count xs).take k = xs.take k := by
  induction count generalizing xs with
  | zero => rfl
  | succ count ih =>
    have hlength : (swapRemove xs (start + count)).length = xs.length - 1 :=
      length_swapRemove (by omega)
    rw [removeRange, ih (by omega)]
    exact take_swapRemove (by omega) (by omega)

/-- Exactly the elements of the range are taken out, up to order. -/
theorem removeRange_perm {start count : ℕ} (h : start + count ≤ xs.length) :
    ((xs.drop start).take count ++ removeRange start count xs).Perm xs := by
  induction count generalizing xs with
  | zero => exact List.Perm.refl _
  | succ count ih =>
    have hi : start + count < xs.length := by omega
    have hlength : (swapRemove xs (start + count)).length = xs.length - 1 :=
      length_swapRemove hi
    have hsame : ((swapRemove xs (start + count)).drop start).take count
        = (xs.drop start).take count := by
      rw [List.take_drop, List.take_drop, take_swapRemove hi (Nat.le_refl _)]
    have hlast : (xs.drop start).take (count + 1)
        = (xs.drop start).take count ++ [xs[start + count]] := by
      rw [List.take_add_one, List.getElem?_drop, List.getElem?_eq_getElem hi]
      rfl
    calc List.Perm ((xs.drop start).take (count + 1) ++ removeRange start (count + 1) xs)
          ((xs.drop start).take count ++ xs[start + count] ::
            removeRange start count (swapRemove xs (start + count))) := by
          rw [hlast, List.append_assoc, removeRange]
          exact List.Perm.refl _
      List.Perm _ (xs[start + count] :: ((xs.drop start).take count ++
            removeRange start count (swapRemove xs (start + count)))) := List.perm_middle
      List.Perm _ (xs[start + count] :: swapRemove xs (start + count)) := by
          rw [← hsame]
          exact (ih (by omega)).cons _
      List.Perm _ xs := cons_swapRemove_perm (List.getElem?_eq_getElem hi)

/-- Behind a position before the range, nothing new appears. -/
theorem drop_removeRange_subset {start count k : ℕ} (h : start + count ≤ xs.length)
    (hk : k ≤ start) : (removeRange start count xs).drop k ⊆ xs.drop k := by
  have hperm : ((xs.drop start).take count ++
      (xs.take k ++ (removeRange start count xs).drop k)).Perm (xs.take k ++ xs.drop k) := by
    rw [List.take_append_drop, ← take_removeRange h hk, List.take_append_drop]
    exact removeRange_perm h
  have hrest : ((xs.drop start).take count ++ (removeRange start count xs).drop k).Perm
      (xs.drop k) := by
    refine (List.perm_append_left_iff (xs.take k)).mp (List.Perm.trans ?_ hperm)
    rw [← List.append_assoc, ← List.append_assoc]
    exact List.perm_append_comm.append_right _
  exact fun a ha => hrest.subset (List.mem_append_right _ ha)

/-! ## Tables -/

/-- `index1b` holds the positions of the elements of `xs`, counted from 1. -/
def Indexed (xs : List α) (index1b : α → ℕ) : Prop :=
  ∀ a i, index1b a = i + 1 ↔ xs[i]? = some a

variable {index1b : α → ℕ}

theorem Indexed.nil : Indexed ([] : List α) fun _ => 0 := fun a i => by simp

theorem Indexed.nodup (h : Indexed xs index1b) : xs.Nodup := by
  rw [List.nodup_iff_getElem?_ne_getElem?]
  intro i j hij hj heq
  obtain ⟨a, ha⟩ : ∃ a, xs[j]? = some a := ⟨_, List.getElem?_eq_getElem hj⟩
  have hi := (h a i).mpr (heq.trans ha)
  have hj := (h a j).mpr ha
  omega

theorem Indexed.mem_iff (h : Indexed xs index1b) {a : α} : a ∈ xs ↔ index1b a ≠ 0 := by
  rw [List.mem_iff_getElem?]
  constructor
  · rintro ⟨i, hi⟩
    rw [(h a i).mpr hi]
    exact Nat.succ_ne_zero i
  · intro hne
    obtain ⟨i, hi⟩ := Nat.exists_eq_succ_of_ne_zero hne
    exact ⟨i, (h a i).mp hi⟩

variable [DecidableEq α]

theorem Indexed.push (h : Indexed xs index1b) {a : α} (ha : index1b a = 0) :
    Indexed (xs ++ [a]) (Function.update index1b a (xs.length + 1)) := by
  intro b i
  rcases eq_or_ne b a with rfl | hne
  · have hfree : ∀ i, xs[i]? ≠ some b := fun i hi => by
      have := (h b i).mpr hi
      omega
    rw [Function.update_self]
    rcases Nat.lt_trichotomy i xs.length with hlt | rfl | hgt
    · rw [List.getElem?_append_left hlt, iff_false_right (hfree i)]
      omega
    · simp
    · have hnone : (xs ++ [b])[i]? = none := List.getElem?_eq_none (by simpa [Nat.succ_le_iff] using hgt)
      simp [hnone]
      omega
  · rw [Function.update_of_ne hne, h b i]
    rcases Nat.lt_trichotomy i xs.length with hlt | rfl | hgt
    · rw [List.getElem?_append_left hlt]
    · simp [hne.symm]
    · rw [List.getElem?_eq_none (Nat.le_of_lt hgt),
        List.getElem?_eq_none (by simpa [Nat.succ_le_iff] using hgt)]

/-- Removal moves the last element's position and forgets the removed one's. -/
theorem Indexed.swapRemove (h : Indexed xs index1b) {a last : α} {i : ℕ} (ha : xs[i]? = some a)
    (hlast : xs[xs.length - 1]? = some last) :
    Indexed (swapRemove xs i)
      (Function.update (Function.update index1b last (i + 1)) a 0) := by
  obtain ⟨hi, -⟩ := List.getElem?_eq_some_iff.mp ha
  have hposA := (h a i).mpr ha
  have hposLast := (h last _).mpr hlast
  intro b j
  rw [getElem?_swapRemove hi hlast]
  rcases eq_or_ne b a with rfl | hbA
  · rw [Function.update_self]
    constructor
    · intro hcon
      omega
    · intro hsome
      exfalso
      split at hsome
      · next hj =>
        split at hsome
        · next hji =>
          -- the removed element would be the last one, at another position
          have : last = b := by simpa using hsome
          subst this
          omega
        · next hji =>
          have := (h b j).mpr hsome
          omega
      · cases hsome
  · rw [Function.update_of_ne hbA]
    rcases eq_or_ne b last with rfl | hbLast
    · rw [Function.update_self]
      constructor
      · intro heq
        obtain rfl : i = j := by omega
        have hne : i ≠ xs.length - 1 := by
          rintro rfl
          exact hbA (Option.some.inj (hlast.symm.trans ha))
        rw [if_pos (by omega), if_pos rfl]
      · intro hsome
        split at hsome
        · next hj =>
          split at hsome
          · next hji => omega
          · next hji =>
            have := (h b j).mpr hsome
            omega
        · cases hsome
    · rw [Function.update_of_ne hbLast, h b j]
      constructor
      · intro hsome
        have hlen := (List.getElem?_eq_some_iff.mp hsome).1
        have hjLast : j ≠ xs.length - 1 := by
          rintro rfl
          exact hbLast (Option.some.inj (hsome.symm.trans hlast))
        have hji : j ≠ i := by
          rintro rfl
          exact hbA (Option.some.inj (hsome.symm.trans ha))
        rw [if_pos (by omega), if_neg hji, hsome]
      · intro hsome
        split at hsome
        · next hj =>
          split at hsome
          · next hji => exact absurd (by simpa using hsome : last = b).symm hbLast
          · next hji => exact hsome
        · cases hsome

end IndexTable
