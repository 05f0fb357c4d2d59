import Catalist.Lib.Sums
import Catalist.Registry.Effects
import Catalist.Registry.Keys

/-!
# The keys to hand out

`_getSigningKeysAllocationData` collects the operators with keys to deposit in arrays that are as
long as there are active operators, and runs the allocation on them. Here it is shown to succeed
under the invariant, and to allocate as much as the summary says there is.
-/

namespace Catalist

open Solidity MinFirstAllocationStrategy

/-! ## Lists -/

section lists

variable {α : Type} {p : α → Bool} {xs : List α}

/-- Writing behind the part of an array that is filled. -/
theorem take_set {ys : List α} {k : Nat} {x : α} (hk : k < ys.length) (hys : ys.take k = xs) :
    (ys.set k x).take (k + 1) = xs ++ [x] := by
  rw [List.take_add_one, List.take_set, List.set_eq_of_length_le (by simp), hys,
    List.getElem?_set_self hk, Option.toList_some]

theorem length_filter_le_sum {f : α → Nat} (hf : ∀ x, p x = true → 1 ≤ f x) :
    (xs.filter p).length ≤ (xs.map f).sum := by
  induction xs with
  | nil => exact Nat.le_refl 0
  | cons x xs ih =>
    rw [List.map_cons, List.sum_cons, List.filter_cons]
    split
    · next hx =>
      have hone := hf x hx
      rw [List.length_cons]
      omega
    · omega

/-- Elements that contribute nothing may be left out of a sum. -/
theorem sum_map_filter {f : α → Nat} (hf : ∀ x, p x = false → f x = 0) :
    ((xs.filter p).map f).sum = (xs.map f).sum := by
  induction xs with
  | nil => rfl
  | cons x xs ih =>
    rw [List.map_cons, List.sum_cons, List.filter_cons]
    cases hx : p x with
    | true =>
      rw [if_pos rfl, List.map_cons, List.sum_cons, ih]
    | false =>
      rw [if_neg Bool.false_ne_true, ih, hf x hx, Nat.zero_add]

theorem flatMap_filter {β : Type} {f : α → List β} (hf : ∀ x, p x = false → f x = []) :
    (xs.filter p).flatMap f = xs.flatMap f := by
  induction xs with
  | nil => rfl
  | cons x xs ih =>
    rw [List.flatMap_cons, List.filter_cons]
    cases hx : p x with
    | true => rw [if_pos rfl, List.flatMap_cons, ih]
    | false => rw [if_neg Bool.false_ne_true, ih, hf x hx, List.nil_append]

theorem room_map {f g : α → Nat} :
    room (xs.map f) (xs.map g) = (xs.map fun x => g x - f x).sum := by
  unfold room
  induction xs with
  | nil => rfl
  | cons x xs ih =>
    rw [List.map_cons, List.map_cons, List.length_cons, Finset.sum_range_succ', List.map_cons,
      List.sum_cons, ← ih, Nat.add_comm]
    rfl

end lists

namespace NodeOperatorsRegistry

variable {s : NodeOperatorsRegistry} {id n : Nat}

/-! ## The operators with keys to deposit -/

/-- The number of keys of an operator that may be deposited. -/
def depositable (op : NodeOperator) : Nat := op.maxValidators - op.deposited

/-- The operators with keys to deposit among `ids`. -/
def ready (s : NodeOperatorsRegistry) (ids : List Nat) : List Nat :=
  ids.filter fun id => (s.operators id).deposited ≠ (s.operators id).maxValidators

theorem sumOver_eq_sum (f : NodeOperator → Nat) :
    s.sumOver f = ((List.range s.totalOperatorsCount).map fun id => f (s.operators id)).sum := rfl

/-- The number of keys that the summary says may be deposited. -/
theorem sumOver_depositable (h : Invariant s) :
    s.sumOver depositable
      = s.summarySigningKeysStats.get SUMMARY_MAX_VALIDATORS_COUNT_OFFSET
        - s.summarySigningKeysStats.get SUMMARY_DEPOSITED_KEYS_COUNT_OFFSET := by
  have hmax := h.max
  have hdeposited := h.deposited
  have hsum : s.sumOver depositable + s.sumOver NodeOperator.deposited
      = s.sumOver NodeOperator.maxValidators := by
    unfold sumOver
    rw [← Finset.sum_add_distrib]
    exact Finset.sum_congr rfl fun id _ => Nat.sub_add_cancel (h.deposited_le_max id)
  omega

/-- The arrays are long enough: who has keys to deposit is active. -/
theorem length_ready_le (h : Invariant s) :
    (s.ready (List.range s.totalOperatorsCount)).length ≤ s.activeOperatorsCount := by
  rw [h.active, sumOver_eq_sum]
  refine length_filter_le_sum fun id hid => ?_
  have hne : (s.operators id).deposited ≠ (s.operators id).maxValidators := of_decide_eq_true hid
  have hlt := Nat.lt_of_le_of_ne (h.deposited_le_max id) hne
  have hactive := (h.wellFormed id).active_of_deposited_lt
    (Nat.lt_of_lt_of_le hlt (h.max_le_vetted id))
  rw [NodeOperator.activity, if_pos hactive]

/-! ## Collecting them -/

/-- The front of the arrays holds the data of `ids`. -/
structure Holds (s : NodeOperatorsRegistry) (arrays : AllocationArrays) (ids : List Nat)
    (length : Nat) : Prop where
  nodeOperatorIds : arrays.nodeOperatorIds.take ids.length = ids
  counts : arrays.activeKeyCountsAfterAllocation.take ids.length
    = ids.map fun id => (s.operators id).deposited - (s.operators id).exited
  capacities : arrays.activeKeysCapacities.take ids.length
    = ids.map fun id => (s.operators id).maxValidators - (s.operators id).exited
  length_ids : arrays.nodeOperatorIds.length = length
  length_counts : arrays.activeKeyCountsAfterAllocation.length = length
  length_capacities : arrays.activeKeysCapacities.length = length

theorem getNodeOperator_eq (h : Invariant s) :
    s.getNodeOperator id = .ok ((s.operators id).exited, (s.operators id).deposited,
      (s.operators id).maxValidators) := by
  have hle := (h.wellFormed id).exited_le_deposited
  exact congrArg (· >>= fun _ => _) (ensure_of ⟨h.deposited_le_max id, hle⟩)

/-- The data of one more operator is written. -/
theorem Holds.push {arrays : AllocationArrays} {seen : List Nat} {length : Nat}
    (harrays : Holds s arrays seen length) (hlt : seen.length < length) :
    Holds s
      { nodeOperatorIds := arrays.nodeOperatorIds.set seen.length id
        activeKeyCountsAfterAllocation := arrays.activeKeyCountsAfterAllocation.set seen.length
          ((s.operators id).deposited - (s.operators id).exited)
        activeKeysCapacities := arrays.activeKeysCapacities.set seen.length
          ((s.operators id).maxValidators - (s.operators id).exited) }
      (seen ++ [id]) length where
  nodeOperatorIds := by
    rw [List.length_append]
    exact take_set (harrays.length_ids.symm ▸ hlt) harrays.nodeOperatorIds
  counts := by
    rw [List.length_append, List.map_append]
    exact take_set (harrays.length_counts.symm ▸ hlt) harrays.counts
  capacities := by
    rw [List.length_append, List.map_append]
    exact take_set (harrays.length_capacities.symm ▸ hlt) harrays.capacities
  length_ids := List.length_set.trans harrays.length_ids
  length_counts := List.length_set.trans harrays.length_counts
  length_capacities := List.length_set.trans harrays.length_capacities

/-- The induction is over the ids that are left. -/
theorem allocationLoop_eq (h : Invariant s) {ids seen : List Nat} {arrays : AllocationArrays}
    {length : Nat} (harrays : Holds s arrays seen length)
    (hlength : (seen ++ s.ready ids).length ≤ length) (hbound : length ≤ MAX_NODE_OPERATORS_COUNT) :
    ∃ arrays', s.allocationLoop ids arrays seen.length
        = .ok (arrays', (seen ++ s.ready ids).length) ∧
      Holds s arrays' (seen ++ s.ready ids) length := by
  induction ids generalizing seen arrays with
  | nil =>
    have hnil : seen ++ s.ready [] = seen := List.append_nil seen
    rw [hnil]
    exact ⟨arrays, rfl, harrays⟩
  | cons id ids ih =>
    rw [allocationLoop, getNodeOperator_eq h, ok_bind]
    simp only
    split
    · next heq =>
      have hskip : s.ready (id :: ids) = s.ready ids := List.filter_cons_of_neg (by simp [heq])
      rw [hskip] at hlength ⊢
      exact ih harrays hlength
    · next hne =>
      have htake : s.ready (id :: ids) = id :: s.ready ids := List.filter_cons_of_pos (by simp [hne])
      rw [htake, List.append_cons] at hlength ⊢
      have hlt : seen.length < length := by
        simp only [List.length_append, List.length_cons, List.length_nil] at hlength
        omega
      have hindex : uncheckedAdd seen.length 1 = (seen ++ [id]).length := by
        rw [List.length_append]
        refine uncheckedAdd_of_lt ?_
        unfold MAX_NODE_OPERATORS_COUNT at hbound
        omega
      rw [setIndex_eq_ok.mpr ⟨harrays.length_ids.symm ▸ hlt, rfl⟩, ok_bind,
        setIndex_eq_ok.mpr ⟨harrays.length_counts.symm ▸ hlt, rfl⟩, ok_bind,
        setIndex_eq_ok.mpr ⟨harrays.length_capacities.symm ▸ hlt, rfl⟩, ok_bind, hindex]
      exact ih (harrays.push hlt) hlength

/-! ## Allocating -/

/-- Cutting the arrays to the part that is filled. -/
theorem Holds.shrink {arrays : AllocationArrays} {ids : List Nat} {length : Nat}
    (harrays : Holds s arrays ids length) :
    arrays.shrink ids.length =
      { nodeOperatorIds := ids
        activeKeyCountsAfterAllocation :=
          ids.map fun id => (s.operators id).deposited - (s.operators id).exited
        activeKeysCapacities :=
          ids.map fun id => (s.operators id).maxValidators - (s.operators id).exited } := by
  rw [AllocationArrays.shrink, harrays.nodeOperatorIds, harrays.counts, harrays.capacities]

/-- Arrays that are filled need no cutting. -/
theorem Holds.shrink_of_full {arrays : AllocationArrays} {ids : List Nat}
    (harrays : Holds s arrays ids ids.length) : arrays.shrink ids.length = arrays := by
  cases arrays with
  | mk nodeOperatorIds counts capacities =>
    rw [AllocationArrays.shrink, AllocationArrays.mk.injEq]
    exact ⟨List.take_of_length_le harrays.length_ids.le,
      List.take_of_length_le harrays.length_counts.le,
      List.take_of_length_le harrays.length_capacities.le⟩

/-- The room of the collected operators is what the summary says may be deposited. -/
theorem room_ready (h : Invariant s) :
    room ((s.ready (List.range s.totalOperatorsCount)).map
          fun id => (s.operators id).deposited - (s.operators id).exited)
        ((s.ready (List.range s.totalOperatorsCount)).map
          fun id => (s.operators id).maxValidators - (s.operators id).exited)
      = s.sumOver depositable := by
  have hpoint : ∀ id, ((s.operators id).maxValidators - (s.operators id).exited)
      - ((s.operators id).deposited - (s.operators id).exited) = depositable (s.operators id) := by
    intro id
    have hexited := (h.wellFormed id).exited_le_deposited
    unfold depositable
    omega
  rw [room_map, sumOver_eq_sum]
  simp only [hpoint]
  refine sum_map_filter fun id hid => ?_
  have heq : (s.operators id).deposited = (s.operators id).maxValidators := by
    simpa using hid
  rw [depositable, heq, Nat.sub_self]

/--
**The allocation gives out as much as was asked for and as the summary says there is**, among the
operators with keys to deposit.
-/
theorem getSigningKeysAllocationData_eq (h : Invariant s) :
    ∃ counts, s.getSigningKeysAllocationData n
        = .ok (min n (s.sumOver depositable), s.ready (List.range s.totalOperatorsCount), counts) ∧
      Raised ((s.ready (List.range s.totalOperatorsCount)).map
          fun id => (s.operators id).deposited - (s.operators id).exited) counts
        ((s.ready (List.range s.totalOperatorsCount)).map
          fun id => (s.operators id).maxValidators - (s.operators id).exited)
        (min n (s.sumOver depositable)) := by
  have hempty : Holds s
      { nodeOperatorIds := List.replicate s.activeOperatorsCount 0
        activeKeyCountsAfterAllocation := List.replicate s.activeOperatorsCount 0
        activeKeysCapacities := List.replicate s.activeOperatorsCount 0 }
      [] s.activeOperatorsCount :=
    ⟨rfl, rfl, rfl, List.length_replicate, List.length_replicate, List.length_replicate⟩
  have hbound : s.activeOperatorsCount ≤ MAX_NODE_OPERATORS_COUNT :=
    (activeOperatorsCount_le h).trans h.totalOperatorsCount_le
  obtain ⟨arrays, hloop, harrays⟩ := allocationLoop_eq h hempty (length_ready_le h) hbound
  rw [List.nil_append, List.length_nil] at hloop
  rw [List.nil_append] at harrays
  have hroom := room_ready h
  generalize hids : s.ready (List.range s.totalOperatorsCount) = ids at *
  unfold getSigningKeysAllocationData
  simp only
  rw [hloop, ok_bind]
  simp only
  split
  · next hzero =>
    -- no operator has keys to deposit, and there is no room
    obtain rfl : ids = [] := List.eq_nil_of_length_eq_zero hzero
    have hnone : s.sumOver depositable = 0 := hroom.symm
    rw [hnone, Nat.min_zero]
    exact ⟨[], rfl, Raised.refl⟩
  · have hshrink : (if ids.length < s.activeOperatorsCount then arrays.shrink ids.length else arrays)
        = arrays.shrink ids.length := by
      split
      · rfl
      · next hge =>
        have hfull : ids.length = s.activeOperatorsCount :=
          Nat.le_antisymm (hids ▸ length_ready_le h) (Nat.le_of_not_lt hge)
        rw [← hfull] at harrays
        exact harrays.shrink_of_full.symm
    have hlength : (ids.map fun id =>
          (s.operators id).maxValidators - (s.operators id).exited).length
        = (ids.map fun id => (s.operators id).deposited - (s.operators id).exited).length := by
      rw [List.length_map, List.length_map]
    have hcapacity : ∀ i, (ids.map fun id =>
        (s.operators id).maxValidators - (s.operators id).exited).getD i 0 ≤ MAX_UINT256 := by
      refine Ledger.getD_map_le fun id => ?_
      have hmax : (s.operators id).maxValidators < 2 ^ 64 := Packed.get_lt
      unfold MAX_UINT256
      omega
    obtain ⟨counts, hallocate, hraised⟩ :=
      allocate_spec (ε := RegistryError) (n := n) hlength hcapacity
    rw [hroom] at hallocate hraised
    rw [hshrink, harrays.shrink, hallocate, ok_bind, ensure_of (Nat.min_le_left _ _), ok_bind]
    exact ⟨counts, rfl, hraised⟩

end NodeOperatorsRegistry

end Catalist
