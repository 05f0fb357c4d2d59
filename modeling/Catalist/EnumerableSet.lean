import Catalist.Lib.Checked
import Catalist.Lib.IndexTable
import Mathlib.Data.Finset.Card

/-!
# Enumerable sets

`EnumerableSet.sol` of the vendored OpenZeppelin contracts: an array of the elements, and a mapping
to their positions, counted from one. Newer versions do not move the last element onto itself, which
makes no difference to the result.

Such a set represents a finite set (`Represents`). The operations are those of finite sets, and
`at` enumerates the elements.
-/

namespace Catalist

open Solidity IndexTable

/-- `Set`, for any type of elements -/
structure EnumerableSet (α : Type) where
  values : List α
  indexes : α → Nat

namespace EnumerableSet

variable {α ε : Type} (set : EnumerableSet α)

/-- The storage of a set that was never written. -/
def empty : EnumerableSet α where
  values := []
  indexes _ := 0

/-- `_contains` -/
def contains (value : α) : Bool :=
  decide (set.indexes value ≠ 0)

/-- `_length` -/
def length : Nat :=
  set.values.length

/-- `_at` -/
def elementAt (index : Nat) : Call ε α :=
  getIndex set.values index

variable {set} {s : Finset α} {a : α}

/-- The array and the mapping belong together, and the elements are those of the finite set. -/
structure Represents (set : EnumerableSet α) (s : Finset α) : Prop where
  indexed : Indexed set.values set.indexes
  mem_iff : ∀ a, a ∈ set.values ↔ a ∈ s

theorem represents_empty : Represents (empty : EnumerableSet α) ∅ where
  indexed := .nil
  mem_iff a := by simp [empty]

theorem Represents.contains_iff (h : set.Represents s) : set.contains a = true ↔ a ∈ s := by
  rw [contains, decide_eq_true_iff, ← h.indexed.mem_iff, h.mem_iff]

/-- The elements are enumerated: each one has exactly one position, below the length. -/
theorem Represents.enumerates (h : set.Represents s) :
    (∀ i, i < set.length ↔ ∃ a ∈ s, (set.elementAt i : Call ε α) = .ok a) ∧
    (∀ a ∈ s, ∃ i, (set.elementAt i : Call ε α) = .ok a) ∧
    ∀ i j a, (set.elementAt i : Call ε α) = .ok a → (set.elementAt j : Call ε α) = .ok a → i = j := by
  have hat : ∀ {i a}, (set.elementAt i : Call ε α) = .ok a ↔ set.values[i]? = some a :=
    getIndex_eq_ok
  refine ⟨fun i => ⟨fun hi => ?_, ?_⟩, fun a ha => ?_, fun i j a hi hj => ?_⟩
  · have hget : set.values[i]? = some set.values[i] := List.getElem?_eq_getElem hi
    exact ⟨_, (h.mem_iff _).mp (List.mem_of_getElem? hget), hat.mpr hget⟩
  · rintro ⟨a, -, ha⟩
    exact (List.getElem?_eq_some_iff.mp (hat.mp ha)).1
  · obtain ⟨i, hi⟩ := List.mem_iff_getElem?.mp ((h.mem_iff a).mpr ha)
    exact ⟨i, hat.mpr hi⟩
  · have hi' := (h.indexed a i).mpr (hat.mp hi)
    have hj' := (h.indexed a j).mpr (hat.mp hj)
    omega

/-! ## The operations -/

variable (set) [DecidableEq α]

/-- `_add` -/
def add (value : α) : EnumerableSet α × Bool :=
  if set.contains value = false then
    let values := set.values ++ [value]
    ({ values := values, indexes := Function.update set.indexes value values.length }, true)
  else (set, false)

/-- `_remove` -/
def remove (value : α) : Call ε (EnumerableSet α × Bool) := do
  let valueIndex := set.indexes value
  if valueIndex ≠ 0 then
    let toDeleteIndex := valueIndex - 1
    let lastIndex ← checkedSub set.values.length 1
    let lastvalue ← getIndex set.values lastIndex
    let values ← setIndex set.values toDeleteIndex lastvalue
    let indexes := Function.update set.indexes lastvalue (toDeleteIndex + 1)
    return ({ values := values.dropLast, indexes := Function.update indexes value 0 }, true)
  else return (set, false)

/-- The finite set that is represented -/
def toFinset : Finset α := set.values.toFinset

variable {set}

theorem represents_toFinset (h : Indexed set.values set.indexes) : set.Represents set.toFinset :=
  ⟨h, fun _ => List.mem_toFinset.symm⟩

theorem Represents.toFinset_eq (h : set.Represents s) : set.toFinset = s := by
  ext a
  rw [toFinset, List.mem_toFinset, h.mem_iff]

theorem Represents.length_eq (h : set.Represents s) : set.length = s.card := by
  rw [← h.toFinset_eq, toFinset, List.toFinset_card_of_nodup h.indexed.nodup]
  rfl

/-- An element is added exactly if it was not there. -/
theorem Represents.add (h : set.Represents s) (a : α) :
    (set.add a).1.Represents (insert a s) ∧ (set.add a).2 = decide (a ∉ s) := by
  unfold EnumerableSet.add
  by_cases ha : a ∈ s
  · rw [if_neg (by rw [h.contains_iff.mpr ha]; decide), Finset.insert_eq_of_mem ha]
    exact ⟨h, (decide_eq_false (not_not.mpr ha)).symm⟩
  · have hcontains : set.contains a = false := Bool.eq_false_iff.mpr fun hc => ha (h.contains_iff.mp hc)
    have hfree : set.indexes a = 0 := by
      simpa [contains] using hcontains
    rw [if_pos hcontains]
    refine ⟨⟨?_, fun b => ?_⟩, (decide_eq_true ha).symm⟩
    · simp only [List.length_append, List.length_singleton]
      exact h.indexed.push hfree
    · rw [List.mem_append, List.mem_singleton, h.mem_iff, Finset.mem_insert, or_comm]

/-- An element is removed exactly if it was there, and nothing can fail. -/
theorem Represents.remove (h : set.Represents s) (a : α) :
    ∃ set', (set.remove a : Call ε _) = .ok (set', decide (a ∈ s)) ∧ set'.Represents (s.erase a) := by
  unfold EnumerableSet.remove
  by_cases ha : a ∈ s
  · have hne := h.indexed.mem_iff.mp ((h.mem_iff a).mpr ha)
    obtain ⟨i, hindex⟩ := Nat.exists_eq_succ_of_ne_zero hne
    have hget : set.values[i]? = some a := (h.indexed a i).mp hindex
    obtain ⟨hi, -⟩ := List.getElem?_eq_some_iff.mp hget
    obtain ⟨last, hlast⟩ : ∃ last, set.values[set.values.length - 1]? = some last :=
      ⟨_, List.getElem?_eq_getElem (by omega)⟩
    have hpos : 1 ≤ set.values.length := by omega
    refine ⟨{ values := swapRemove set.values i,
              indexes := Function.update (Function.update set.indexes last (i + 1)) a 0 }, ?_, ?_⟩
    · simp only [hindex, checkedSub_of hpos, getIndex, hlast, setIndex,
        Nat.succ_sub_one, if_pos hi, ok_bind, swapRemove_of_getLast hlast, decide_eq_true ha]
      rfl
    · refine ⟨h.indexed.swapRemove hget hlast, fun b => ?_⟩
      have hperm := cons_swapRemove_perm hget
      have hnodup := hperm.nodup_iff.mpr h.indexed.nodup
      have hmem : b ∈ set.values ↔ b = a ∨ b ∈ swapRemove set.values i := by
        rw [← hperm.mem_iff, List.mem_cons]
      rw [Finset.mem_erase, ← h.mem_iff, hmem]
      constructor
      · intro hb
        refine ⟨?_, .inr hb⟩
        rintro rfl
        exact (List.nodup_cons.mp hnodup).1 hb
      · rintro ⟨hba, hb⟩
        exact hb.resolve_left hba
  · have hzero : ¬ set.indexes a ≠ 0 := fun hne =>
      ha ((h.mem_iff a).mp (h.indexed.mem_iff.mpr hne))
    rw [if_neg hzero, Finset.erase_eq_of_notMem ha, decide_eq_false ha]
    exact ⟨set, rfl, h⟩

theorem Represents.of_remove (h : set.Represents s) {set' : EnumerableSet α} {removed : Bool}
    (hremove : (set.remove a : Call ε _) = .ok (set', removed)) : set'.Represents (s.erase a) := by
  obtain ⟨set₁, hok, hrepresents⟩ := h.remove a
  rw [hok] at hremove
  cases hremove
  exact hrepresents

end EnumerableSet

end Catalist
