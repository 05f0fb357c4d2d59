import Catalist.Lib.Sums
import Catalist.Registry.MinFirstAllocation
import Catalist.Router.Base
import Mathlib.Data.List.Forall2

/-!
# The allocation of deposits

How many deposits each module may get: the modules are filled up to their shares of all active
validators, always those with the least validators first (`_getDepositsAllocation`).
-/

namespace Catalist

open Solidity Finset

namespace StakingRouter

variable {ε ρ : Type} (s : StakingRouter) (callees : RouterCallees ε ρ) (world : ρ)

/-! ## The allocation -/

/-- The loop of `_getDepositsAllocation`: the capacities of the modules in the cache. -/
def capacitiesLoop (totalActiveValidators : Nat) :
    List StakingModuleCache → Call (RouterError ε) (List Nat)
  | [] => return []
  | item :: items => do
    let scaled ← checkedMul 256 item.targetShare totalActiveValidators
    let targetValidators ← checkedDiv scaled TOTAL_BASIS_POINTS
    let available ← checkedAdd 256 item.activeValidatorsCount item.availableValidatorsCount
    let capacities ← capacitiesLoop totalActiveValidators items
    return min targetValidators available :: capacities

/-- `_getDepositsAllocation`: the number of allocated deposits, the allocations, and the cache. -/
def getDepositsAllocation (depositsToAllocate : Nat) :
    Call (RouterError ε) (Nat × List Nat × List StakingModuleCache) := do
  let (totalActiveValidators, stakingModulesCache) ← s.loadStakingModulesCache callees world
  if 0 < stakingModulesCache.length then do
    let totalActiveValidators ← checkedAdd 256 totalActiveValidators depositsToAllocate
    let capacities ← capacitiesLoop totalActiveValidators stakingModulesCache
    let (allocations, allocated) ← MinFirstAllocationStrategy.allocate
      (stakingModulesCache.map StakingModuleCache.activeValidatorsCount) capacities
      depositsToAllocate
    return (allocated, allocations, stakingModulesCache)
  else return (0, [], stakingModulesCache)

/-- `getStakingModuleMaxDepositsCount` -/
def getStakingModuleMaxDepositsCount (stakingModuleId maxDepositsValue : Nat) :
    Call (RouterError ε) Nat := do
  let depositsToAllocate ← checkedDiv maxDepositsValue DEPOSIT_SIZE
  let (_, newDepositsAllocation, stakingModulesCache) ←
    s.getDepositsAllocation callees world depositsToAllocate
  let stakingModuleIndex ← s.getStakingModuleIndexById stakingModuleId
  let allocation ← getIndex newDepositsAllocation stakingModuleIndex
  let item ← getIndex stakingModulesCache stakingModuleIndex
  checkedSub allocation item.activeValidatorsCount

/-! ## The validators of a module -/

/-- What a module says of its validators; nothing if it reverts. -/
def summaryOf (i : Nat) : StakingModuleSummary :=
  match callees.getStakingModuleSummary world (s.stakingModules i).stakingModuleAddress with
  | .ok summary => summary
  | .error _ => ⟨0, 0, 0⟩

/-- The active validators of a module, of those that the router knows to have exited. -/
def activeValidatorsCount (i : Nat) : Nat :=
  (s.summaryOf callees world i).totalDepositedValidators -
    max (s.summaryOf callees world i).totalExitedValidators
      (s.stakingModules i).exitedValidatorsCount

/-- The active validators of all modules. -/
def totalActiveValidators : Nat :=
  ∑ i ∈ range s.stakingModulesCount, s.activeValidatorsCount callees world i

/-- The cache holds the modules at the given indices. -/
def Cached (is : List Nat) (cache : List StakingModuleCache) : Prop :=
  List.Forall₂ (fun i item => s.loadStakingModulesCacheItem callees world i = .ok item) is cache

variable {s callees world} {cache : List StakingModuleCache} {item : StakingModuleCache}

theorem loadStakingModulesCacheItem_ok_cases {i : Nat}
    (h : s.loadStakingModulesCacheItem callees world i = .ok item) :
    item = {
      stakingModuleAddress := (s.stakingModules i).stakingModuleAddress
      stakingModuleId := (s.stakingModules i).id
      stakingModuleFee := (s.stakingModules i).stakingModuleFee
      treasuryFee := (s.stakingModules i).treasuryFee
      targetShare := (s.stakingModules i).targetShare
      status := (s.stakingModules i).status
      activeValidatorsCount := s.activeValidatorsCount callees world i
      availableValidatorsCount :=
        if (s.stakingModules i).status = .active then
          (s.summaryOf callees world i).depositableValidatorsCount
        else 0 } := by
  simp only [loadStakingModulesCacheItem, bind_eq_ok, within_eq_ok, checkedSub_eq_ok,
    pure_eq_ok] at h
  obtain ⟨summary, hsummary, _, ⟨-, rfl⟩, rfl⟩ := h
  have heq : s.summaryOf callees world i = summary := by
    unfold summaryOf
    rw [hsummary]
  unfold activeValidatorsCount
  rw [heq]

/-- The induction is over the indices that are left. -/
theorem loadStakingModulesCacheLoop_ok_cases {is : List Nat} {total total' : Nat}
    {cache' : List StakingModuleCache}
    (h : s.loadStakingModulesCacheLoop callees world is total cache = .ok (total', cache')) :
    ∃ items, cache' = cache ++ items ∧ s.Cached callees world is items ∧
      total' = total + (is.map fun i => s.activeValidatorsCount callees world i).sum := by
  induction is generalizing total cache with
  | nil =>
    simp only [loadStakingModulesCacheLoop, pure_eq_ok, Prod.mk.injEq] at h
    obtain ⟨rfl, rfl⟩ := h
    exact ⟨[], (List.append_nil _).symm, .nil, rfl⟩
  | cons i is ih =>
    simp only [loadStakingModulesCacheLoop, bind_eq_ok, checkedAdd_eq_ok] at h
    obtain ⟨item, hitem, _, ⟨-, rfl⟩, hrest⟩ := h
    obtain ⟨items, rfl, hitems, rfl⟩ := ih hrest
    refine ⟨item :: items, by rw [List.append_assoc, List.singleton_append], .cons hitem hitems, ?_⟩
    rw [List.map_cons, List.sum_cons, loadStakingModulesCacheItem_ok_cases hitem, Nat.add_assoc]

theorem loadStakingModulesCache_ok_cases {total : Nat}
    (h : s.loadStakingModulesCache callees world = .ok (total, cache)) :
    s.Cached callees world (List.range s.stakingModulesCount) cache ∧
      total = s.totalActiveValidators callees world := by
  obtain ⟨items, rfl, hitems, rfl⟩ := loadStakingModulesCacheLoop_ok_cases h
  refine ⟨hitems, ?_⟩
  rw [Nat.zero_add]
  rfl

theorem Cached.length (h : s.Cached callees world (List.range s.stakingModulesCount) cache) :
    cache.length = s.stakingModulesCount := by
  rw [← List.Forall₂.length_eq h, List.length_range]

theorem Cached.exists_item (h : s.Cached callees world (List.range s.stakingModulesCount) cache) {i : Nat}
    (hi : i < s.stakingModulesCount) :
    ∃ item, cache[i]? = some item ∧ s.loadStakingModulesCacheItem callees world i = .ok item := by
  have hlt : i < cache.length := h.length.symm ▸ hi
  have hrange : i < (List.range s.stakingModulesCount).length := by rwa [List.length_range]
  refine ⟨cache[i], List.getElem?_eq_getElem hlt, ?_⟩
  have hitem := List.Forall₂.get h hrange hlt
  rwa [List.get_eq_getElem, List.getElem_range] at hitem

theorem Cached.summary_eq (h : s.Cached callees world (List.range s.stakingModulesCount) cache)
    {i : Nat} (hi : i < s.stakingModulesCount) :
    callees.getStakingModuleSummary world (s.stakingModules i).stakingModuleAddress
      = .ok (s.summaryOf callees world i) := by
  obtain ⟨item, -, hload⟩ := h.exists_item hi
  simp only [loadStakingModulesCacheItem, bind_eq_ok, within_eq_ok] at hload
  obtain ⟨summary, hsummary, -⟩ := hload
  unfold summaryOf
  rw [hsummary]

/-- The active validators of the modules in the cache. -/
theorem Cached.getD_active (h : s.Cached callees world (List.range s.stakingModulesCount) cache)
    {i : Nat} (hi : i < s.stakingModulesCount) :
    (cache.map StakingModuleCache.activeValidatorsCount).getD i 0
      = s.activeValidatorsCount callees world i := by
  obtain ⟨item, hitem, hload⟩ := h.exists_item hi
  rw [List.getD_eq_getElem?_getD, List.getElem?_map, hitem, Option.map_some, Option.getD_some,
    loadStakingModulesCacheItem_ok_cases hload]

/-! ## What is allocated -/

/-- The capacity of a module: its share of the validators, but no more than it has and can have. -/
def CapacityOf (total : Nat) (item : StakingModuleCache) (capacity : Nat) : Prop :=
  capacity = min (item.targetShare * total / TOTAL_BASIS_POINTS)
    (item.activeValidatorsCount + item.availableValidatorsCount) ∧ capacity < 2 ^ 256

theorem capacitiesLoop_ok_cases {total : Nat} {capacities : List Nat}
    (h : (capacitiesLoop total cache : Call (RouterError ε) (List Nat)) = .ok capacities) :
    List.Forall₂ (CapacityOf total) cache capacities := by
  induction cache generalizing capacities with
  | nil =>
    simp only [capacitiesLoop, pure_eq_ok] at h
    subst h
    exact .nil
  | cons item items ih =>
    simp only [capacitiesLoop, bind_eq_ok, checkedMul_eq_ok, checkedDiv_eq_ok, checkedAdd_eq_ok,
      pure_eq_ok] at h
    obtain ⟨_, ⟨-, rfl⟩, _, ⟨-, rfl⟩, _, ⟨hfits, rfl⟩, rest, hrest, rfl⟩ := h
    exact .cons ⟨rfl, Nat.lt_of_le_of_lt (Nat.min_le_right _ _) hfits⟩ (ih hrest)

theorem capacity_le {total : Nat} {capacities : List Nat}
    (h : List.Forall₂ (CapacityOf total) cache capacities) (i : Nat) :
    capacities.getD i 0 ≤ MinFirstAllocationStrategy.MAX_UINT256 := by
  induction h generalizing i with
  | nil => exact Nat.zero_le _
  | cons hfirst _ ih =>
    cases i with
    | zero => exact Nat.le_sub_one_of_lt hfirst.2
    | succ i => exact ih i

theorem Cached.getD_capacity (h : s.Cached callees world (List.range s.stakingModulesCount) cache)
    {total : Nat} {capacities : List Nat} (hcaps : List.Forall₂ (CapacityOf total) cache capacities)
    {i : Nat} (hi : i < s.stakingModulesCount) :
    capacities.getD i 0 = min ((s.stakingModules i).targetShare * total / TOTAL_BASIS_POINTS)
      (s.activeValidatorsCount callees world i +
        if (s.stakingModules i).status = .active then
          (s.summaryOf callees world i).depositableValidatorsCount
        else 0) := by
  obtain ⟨item, hitem, hload⟩ := h.exists_item hi
  obtain ⟨hlt, rfl⟩ := List.getElem?_eq_some_iff.mp hitem
  have hlt' : i < capacities.length := List.Forall₂.length_eq hcaps ▸ hlt
  have hcapacity := (List.Forall₂.get hcaps hlt hlt').1
  rw [List.get_eq_getElem, List.get_eq_getElem, loadStakingModulesCacheItem_ok_cases hload]
    at hcapacity
  rw [List.getD_eq_getElem?_getD, List.getElem?_eq_getElem hlt', Option.getD_some, hcapacity]

/-- The allocations raise the modules from their active validators up to their capacities. -/
structure Allocated (s : StakingRouter) (callees : RouterCallees ε ρ) (world : ρ) (n allocated : Nat)
    (allocations : List Nat) : Prop where
  le : ∀ i < s.stakingModulesCount,
    s.activeValidatorsCount callees world i ≤ allocations.getD i 0
  le_available : ∀ i < s.stakingModulesCount,
    allocations.getD i 0 ≤ s.activeValidatorsCount callees world i +
      if (s.stakingModules i).status = .active then
        (s.summaryOf callees world i).depositableValidatorsCount
      else 0
  le_target : ∀ i < s.stakingModulesCount,
    allocations.getD i 0 ≤ max (s.activeValidatorsCount callees world i)
      ((s.stakingModules i).targetShare * (s.totalActiveValidators callees world + n) /
        TOTAL_BASIS_POINTS)
  sum : ∑ i ∈ range s.stakingModulesCount, allocations.getD i 0
    = s.totalActiveValidators callees world + allocated
  allocated_le : allocated ≤ n

theorem getDepositsAllocation_ok_cases {n allocated : Nat} {allocations : List Nat}
    (h : s.getDepositsAllocation callees world n = .ok (allocated, allocations, cache)) :
    s.Cached callees world (List.range s.stakingModulesCount) cache ∧
      s.Allocated callees world n allocated allocations := by
  simp only [getDepositsAllocation, bind_eq_ok] at h
  obtain ⟨⟨total, cache'⟩, hload, h⟩ := h
  obtain ⟨hcached, htotal⟩ := loadStakingModulesCache_ok_cases hload
  have hlength := hcached.length
  simp only at h
  split at h
  · simp only [bind_eq_ok, checkedAdd_eq_ok, pure_eq_ok, Prod.mk.injEq] at h
    obtain ⟨_, ⟨-, rfl⟩, capacities, hcapacities, result, hallocate, rfl, rfl, rfl⟩ := h
    have hcaps := capacitiesLoop_ok_cases hcapacities
    have hlengths : capacities.length =
        (cache'.map StakingModuleCache.activeValidatorsCount).length := by
      rw [List.length_map, List.Forall₂.length_eq hcaps]
    obtain ⟨buckets, hresult, hraised⟩ := MinFirstAllocationStrategy.allocate_spec
      (ε := RouterError ε) (n := n) hlengths (capacity_le hcaps)
    obtain rfl := Except.ok.inj (hresult.symm.trans hallocate)
    simp only
    have hsum := hraised.sum
    rw [List.length_map, hlength] at hsum
    refine ⟨hcached, fun i hi => ?_, fun i hi => ?_, fun i hi => ?_, ?_, Nat.min_le_left _ _⟩
    · rw [← hcached.getD_active hi]
      exact hraised.le i
    · have hle := hraised.le_capacity i
      rw [hcached.getD_active hi, hcached.getD_capacity hcaps hi] at hle
      omega
    · have hle := hraised.le_capacity i
      rw [hcached.getD_active hi, hcached.getD_capacity hcaps hi, htotal] at hle
      omega
    · rw [hsum, totalActiveValidators,
        sum_congr rfl fun i hi => hcached.getD_active (mem_range.mp hi)]
  · -- there is no module, and the target total is not even computed
    next hnone =>
    simp only [pure_eq_ok, Prod.mk.injEq] at h
    obtain ⟨rfl, rfl, rfl⟩ := h
    have hzero : s.stakingModulesCount = 0 := by omega
    refine ⟨hcached, fun i hi => ?_, fun i hi => ?_, fun i hi => ?_, ?_, Nat.zero_le _⟩
    · omega
    · omega
    · omega
    · rw [totalActiveValidators, hzero]
      rfl

/-! ## The deposits of one module -/

/-- The modules are registered under their ids. -/
def Registered (s : StakingRouter) : Prop :=
  ∀ i < s.stakingModulesCount, s.stakingModuleIndicesOneBased (s.stakingModules i).id = i + 1

instance (s : StakingRouter) : Decidable s.Registered :=
  inferInstanceAs (Decidable (∀ i < s.stakingModulesCount,
    s.stakingModuleIndicesOneBased (s.stakingModules i).id = i + 1))

theorem getStakingModuleMaxDepositsCount_ok_cases {id value r : Nat}
    (h : s.getStakingModuleMaxDepositsCount callees world id value = .ok r) :
    ∃ allocated allocations cache,
      s.getDepositsAllocation callees world (value / DEPOSIT_SIZE)
        = .ok (allocated, allocations, cache) ∧
      s.stakingModuleIndicesOneBased id ≠ 0 ∧
      s.stakingModuleIndicesOneBased id ≤ s.stakingModulesCount ∧
      r = allocations.getD (s.stakingModuleIndicesOneBased id - 1) 0 -
        s.activeValidatorsCount callees world (s.stakingModuleIndicesOneBased id - 1) := by
  simp only [getStakingModuleMaxDepositsCount, getStakingModuleIndexById, bind_eq_ok, pure_eq_ok,
    require_eq_ok, checkedDiv_eq_ok, checkedSub_eq_ok, getIndex_eq_ok] at h
  obtain ⟨_, ⟨-, rfl⟩, ⟨allocated, allocations, cache⟩, hallocation, index, ⟨_, hid, rfl⟩,
    allocation, hget, item, hitem, -, rfl⟩ := h
  obtain ⟨hcached, -⟩ := getDepositsAllocation_ok_cases hallocation
  have hlt := (List.getElem?_eq_some_iff.mp hitem).1
  rw [hcached.length] at hlt
  refine ⟨allocated, allocations, cache, hallocation, hid, by omega, ?_⟩
  rw [List.getD_eq_getElem?_getD, hget, Option.getD_some, ← hcached.getD_active hlt,
    List.getD_eq_getElem?_getD, List.getElem?_map, hitem, Option.map_some, Option.getD_some]

/-- All together, the modules get no more deposits than the value is enough for. -/
theorem sum_maxDepositsCount_le (hregistered : Registered s) {value : Nat} {r : Nat → Nat}
    (h : ∀ i < s.stakingModulesCount,
      s.getStakingModuleMaxDepositsCount callees world (s.stakingModules i).id value = .ok (r i)) :
    ∑ i ∈ range s.stakingModulesCount, r i ≤ value / DEPOSIT_SIZE := by
  rcases Nat.eq_zero_or_pos s.stakingModulesCount with hzero | hpos
  · rw [hzero]
    exact Nat.zero_le _
  · obtain ⟨allocated, allocations, cache, hallocation, -⟩ :=
      getStakingModuleMaxDepositsCount_ok_cases (h 0 hpos)
    obtain ⟨-, hallocated⟩ := getDepositsAllocation_ok_cases hallocation
    have hpoint : ∀ i ∈ range s.stakingModulesCount,
        r i + s.activeValidatorsCount callees world i = allocations.getD i 0 := by
      intro i hi
      have hi := mem_range.mp hi
      obtain ⟨_, _, _, hallocation', -, -, hr⟩ := getStakingModuleMaxDepositsCount_ok_cases (h i hi)
      -- the allocation is the same for all modules
      obtain ⟨rfl, rfl, rfl⟩ := by
        simpa only [Prod.mk.injEq] using Except.ok.inj (hallocation.symm.trans hallocation')
      rw [hregistered i hi, Nat.add_sub_cancel] at hr
      rw [hr]
      exact Nat.sub_add_cancel (hallocated.le i hi)
    have hsum := hallocated.sum
    rw [← sum_congr rfl hpoint, sum_add_distrib] at hsum
    have hle := hallocated.allocated_le
    unfold totalActiveValidators at hsum
    omega

/-- A module gets no more deposits than it has keys for and than its share leaves room for. -/
theorem maxDepositsCount_bounds (hregistered : Registered s) {value r i : Nat}
    (hi : i < s.stakingModulesCount)
    (h : s.getStakingModuleMaxDepositsCount callees world (s.stakingModules i).id value = .ok r) :
    callees.getStakingModuleSummary world (s.stakingModules i).stakingModuleAddress
      = .ok (s.summaryOf callees world i) ∧
    r ≤ (s.summaryOf callees world i).depositableValidatorsCount ∧
    ((s.stakingModules i).status ≠ .active → r = 0) ∧
    s.activeValidatorsCount callees world i + r ≤
      max (s.activeValidatorsCount callees world i)
        ((s.stakingModules i).targetShare *
          (s.totalActiveValidators callees world + value / DEPOSIT_SIZE) / TOTAL_BASIS_POINTS) := by
  obtain ⟨allocated, allocations, cache, hallocation, -, -, hr⟩ :=
    getStakingModuleMaxDepositsCount_ok_cases h
  rw [hregistered i hi, Nat.add_sub_cancel] at hr
  obtain ⟨hcached, hallocated⟩ := getDepositsAllocation_ok_cases hallocation
  have havailable := hallocated.le_available i hi
  have htarget := hallocated.le_target i hi
  refine ⟨hcached.summary_eq hi, ?_, fun hstatus => ?_, by omega⟩
  · split at havailable <;> omega
  · rw [if_neg hstatus] at havailable
    omega

/-- No module gets more deposits than the value is enough for. -/
theorem maxDepositsCount_le {id value r : Nat}
    (h : s.getStakingModuleMaxDepositsCount callees world id value = .ok r) :
    r ≤ value / DEPOSIT_SIZE := by
  obtain ⟨allocated, allocations, cache, hallocation, hid, hle, hr⟩ :=
    getStakingModuleMaxDepositsCount_ok_cases h
  obtain ⟨-, hallocated⟩ := getDepositsAllocation_ok_cases hallocation
  have hi : s.stakingModuleIndicesOneBased id - 1 ∈ range s.stakingModulesCount :=
    mem_range.mpr (by omega)
  have hgain : ∑ i ∈ range s.stakingModulesCount,
      (allocations.getD i 0 - s.activeValidatorsCount callees world i) +
        s.totalActiveValidators callees world
      = s.totalActiveValidators callees world + allocated := by
    rw [← hallocated.sum, totalActiveValidators, ← sum_add_distrib]
    exact sum_congr rfl fun i hi => Nat.sub_add_cancel (hallocated.le i (mem_range.mp hi))
  have hone := Ledger.le_sum (f := fun i =>
    allocations.getD i 0 - s.activeValidatorsCount callees world i) hi
  have hbound := hallocated.allocated_le
  rw [← hr] at hone
  omega

end StakingRouter

end Catalist
