import Catalist.Router.ExitedCounts

/-!
# The active validators of the modules

All computations with the modules start by subtracting the exited validators of each from its
deposits. They get past that point wherever there are enough deposits (`Countable`). At the end are
the calls that leave the counts alone.
-/

namespace Catalist

open Solidity Transition Finset

namespace StakingRouter

variable {ε ρ : Type} {s s' : StakingRouter} {callees : RouterCallees ε ρ} {world : ρ}
  {cache : List StakingModuleCache} {total : Nat}

/-! ## Computations with the active validators -/

/-- The module at an index answers, and there are enough deposits to subtract from. -/
def Countable (s : StakingRouter) (callees : RouterCallees ε ρ) (world : ρ) (i : Nat) : Prop :=
  ∃ summary, callees.getStakingModuleSummary world (s.stakingModules i).stakingModuleAddress
      = .ok summary ∧
    max summary.totalExitedValidators (s.stakingModules i).exitedValidatorsCount
      ≤ summary.totalDepositedValidators

theorem Countable.exists_item {i : Nat} (h : s.Countable callees world i) :
    ∃ item, s.loadStakingModulesCacheItem callees world i = .ok item := by
  obtain ⟨summary, hsummary, hle⟩ := h
  unfold loadStakingModulesCacheItem
  simp only
  rw [hsummary]
  simp only [within, ok_bind, checkedSub_of hle]
  exact ⟨_, rfl⟩

/-- The induction is over the indices that are left. -/
theorem exists_loadStakingModulesCacheLoop {is : List Nat}
    (h : ∀ i ∈ is, s.Countable callees world i)
    (hfits : total + (is.map fun i => s.activeValidatorsCount callees world i).sum < 2 ^ 256) :
    ∃ r, s.loadStakingModulesCacheLoop callees world is total cache = .ok r := by
  induction is generalizing total cache with
  | nil => exact ⟨_, rfl⟩
  | cons i is ih =>
    obtain ⟨item, hitem⟩ := (h i (List.mem_cons_self ..)).exists_item
    have hactive : item.activeValidatorsCount = s.activeValidatorsCount callees world i := by
      rw [loadStakingModulesCacheItem_ok_cases hitem]
    rw [List.map_cons, List.sum_cons, ← hactive, ← Nat.add_assoc] at hfits
    obtain ⟨r, hr⟩ := ih (fun j hj => h j (List.mem_cons_of_mem _ hj)) hfits
    refine ⟨r, ?_⟩
    unfold loadStakingModulesCacheLoop
    rw [hitem, ok_bind, checkedAdd_of (Nat.lt_of_le_of_lt (Nat.le_add_right _ _) hfits), ok_bind]
    exact hr

theorem exists_loadStakingModulesCache
    (h : ∀ i < s.stakingModulesCount, s.Countable callees world i)
    (hfits : s.totalActiveValidators callees world < 2 ^ 256) :
    ∃ cache, s.loadStakingModulesCache callees world
      = .ok (s.totalActiveValidators callees world, cache) := by
  have hloop : ∃ r, s.loadStakingModulesCache callees world = .ok r := by
    refine exists_loadStakingModulesCacheLoop (fun i hi => h i (List.mem_range.mp hi)) ?_
    rw [Nat.zero_add]
    exact hfits
  obtain ⟨⟨total, cache⟩, hload⟩ := hloop
  obtain ⟨-, htotal⟩ := loadStakingModulesCache_ok_cases hload
  rw [← htotal]
  exact ⟨cache, hload⟩

/-- A failure that is not an underflow. -/
def NoUnderflow (r : Revert (RouterError ε)) : Prop := r ≠ .panic .underflow

theorem ensures_capacitiesLoop (total : Nat) (cache : List StakingModuleCache) :
    Ensures NoUnderflow (capacitiesLoop total cache : Call (RouterError ε) (List Nat))
      fun _ => True := by
  have hoverflow : NoUnderflow (ε := ε) (.panic .overflow) := by simp [NoUnderflow]
  induction cache with
  | nil => exact ensures_pure trivial
  | cons item items ih =>
    refine (ensures_checkedMul hoverflow).bind fun _ _ => ?_
    refine (ensures_checkedDiv (by decide)).bind fun _ _ => ?_
    refine (ensures_checkedAdd hoverflow).bind fun _ _ => ?_
    exact ih.bind fun _ _ => ensures_pure trivial

/-- The allocation subtracts nothing after the cache is there. -/
theorem ensures_getDepositsAllocation (hload : s.loadStakingModulesCache callees world = .ok (total, cache))
    (n : Nat) : Ensures NoUnderflow (s.getDepositsAllocation callees world n) fun _ => True := by
  have hoverflow : NoUnderflow (ε := ε) (.panic .overflow) := by simp [NoUnderflow]
  unfold getDepositsAllocation
  rw [hload, ok_bind]
  simp only
  split
  · refine (ensures_checkedAdd hoverflow).bind fun total _ => ?_
    refine (ensures_capacitiesLoop total cache).bind_ok fun capacities hcapacities => ?_
    have hcaps := capacitiesLoop_ok_cases hcapacities
    have hlengths : capacities.length =
        (cache.map StakingModuleCache.activeValidatorsCount).length := by
      rw [List.length_map, List.Forall₂.length_eq hcaps]
    obtain ⟨buckets, hresult, -⟩ := MinFirstAllocationStrategy.allocate_spec
      (ε := RouterError ε) (n := n) hlengths (capacity_le hcaps)
    rw [hresult, ok_bind]
    exact ensures_pure trivial
  · exact ensures_pure trivial

theorem ensures_getIndex_noUnderflow {α : Type} (xs : List α) (i : Nat) :
    Ensures (NoUnderflow (ε := ε)) (getIndex xs i) fun x => xs[i]? = some x := by
  unfold getIndex
  cases hx : xs[i]? with
  | some x => exact ensures_ok rfl
  | none => exact ensures_error (by simp [NoUnderflow])

/-- A module is never allocated less than it has. -/
theorem ensures_getStakingModuleMaxDepositsCount (h : Managed s)
    (hload : s.loadStakingModulesCache callees world = .ok (total, cache)) (id value : Nat) :
    Ensures NoUnderflow (s.getStakingModuleMaxDepositsCount callees world id value)
      fun _ => True := by
  refine (ensures_checkedDiv (by decide)).bind fun n _ => ?_
  refine (ensures_getDepositsAllocation hload n).bind_ok ?_
  rintro ⟨allocated, allocations, cache⟩ hallocation
  obtain ⟨hcached, hallocated⟩ := getDepositsAllocation_ok_cases hallocation
  have hindex : Ensures (NoUnderflow (ε := ε)) (s.getStakingModuleIndexById id)
      fun index => s.stakingModuleIndicesOneBased id = index + 1 := by
    refine (ensures_require (by simp [NoUnderflow])).bind fun _ hid => ensures_pure ?_
    exact (Nat.sub_add_cancel (Nat.pos_of_ne_zero hid)).symm
  refine hindex.bind fun index hid => ?_
  refine (ensures_getIndex_noUnderflow allocations index).bind fun allocation hget => ?_
  refine (ensures_getIndex_noUnderflow cache index).bind fun item hitem => ?_
  have hlt : index < s.stakingModulesCount := by
    have hle := h.index_le id
    omega
  have hnew : allocations.getD index 0 = allocation := by
    rw [List.getD_eq_getElem?_getD, hget, Option.getD_some]
  have hactive : s.activeValidatorsCount callees world index = item.activeValidatorsCount := by
    rw [← hcached.getD_active hlt, List.getD_eq_getElem?_getD, List.getElem?_map, hitem,
      Option.map_some, Option.getD_some]
  have hle := hallocated.le index hlt
  rw [hnew, hactive] at hle
  exact (ensures_checkedSub hle).mono fun _ _ => trivial

/-- An item says how many active validators its module has. -/
theorem Cached.active_lt {b : Nat}
    (h : s.Cached callees world (List.range s.stakingModulesCount) cache)
    (hb : ∀ i < s.stakingModulesCount, s.activeValidatorsCount callees world i < b) :
    ∀ item ∈ cache, item.activeValidatorsCount < b := by
  intro item hitem
  have hmem : item.activeValidatorsCount
      ∈ cache.map StakingModuleCache.activeValidatorsCount := List.mem_map_of_mem hitem
  rw [h.map_active] at hmem
  obtain ⟨i, hi, heq⟩ := List.mem_map.mp hmem
  rw [← heq]
  exact hb i (List.mem_range.mp hi)

/-- With few enough validators no product is too large, and the fee is distributed. -/
theorem getStakingRewardsDistribution_eq (h : Managed s)
    (hload : s.loadStakingModulesCache callees world = .ok (total, cache))
    (hb : ∀ i < s.stakingModulesCount, s.activeValidatorsCount callees world i < 2 ^ 64) :
    s.getStakingRewardsDistribution callees world = .ok (distributionOf total cache) := by
  obtain ⟨hcached, -⟩ := loadStakingModulesCache_ok_cases hload
  have hsucceeds : Ensures (fun _ => False) (s.getStakingRewardsDistribution callees world)
      fun d => d = distributionOf total cache ∧ FeeBounded d := by
    refine ⟨(ensures_getStakingRewardsDistribution h hload).of_ok, fun herror => ?_⟩
    obtain ⟨-, item, hitem, hlarge⟩ :=
      (ensures_getStakingRewardsDistribution h hload).of_error herror
    have hsmall : item.activeValidatorsCount * FEE_PRECISION_POINTS
        ≤ 2 ^ 64 * FEE_PRECISION_POINTS :=
      Nat.mul_le_mul_right _ (hcached.active_lt hb item hitem).le
    exact absurd (hlarge.trans hsmall) (by decide)
  obtain ⟨d, hd, rfl, -⟩ := hsucceeds.exists_ok
  exact hd

/-! ## Calls that leave the counts alone -/

/-- Modules keep their places, and all exited counts are what they were. -/
def SameExited (s s' : StakingRouter) : Prop :=
  Later s s' ∧ ∀ i, (s'.stakingModules i).exitedValidatorsCount
    = (s.stakingModules i).exitedValidatorsCount

theorem sameExited_setStakingModule {index : Nat} {m : StakingModule}
    (hid : m.id = (s.stakingModules index).id)
    (haddress : m.stakingModuleAddress = (s.stakingModules index).stakingModuleAddress)
    (hexited : m.exitedValidatorsCount = (s.stakingModules index).exitedValidatorsCount) :
    SameExited s (s.setStakingModule index m) := by
  refine ⟨later_setStakingModule hid haddress hexited.ge, fun i => ?_⟩
  unfold setStakingModule
  by_cases hi : i = index
  · subst hi
    simp only [Function.update_self]
    exact hexited
  · simp only [Function.update_of_ne hi]

theorem Added.sameExited {m : StakingModule} (h : Added s m s') : SameExited s s' := by
  have hexited := h.exitedValidatorsCount
  rw [h.router]
  refine ⟨⟨Nat.le_succ _, fun i hi => ?_, fun i hi => ?_, fun i => ?_⟩, fun i => ?_⟩
  · simp only [Function.update_of_ne hi.ne]
  · simp only [Function.update_of_ne hi.ne]
  all_goals
    -- the place of the new module keeps the count that was there, which is zero
    by_cases hi : i = s.stakingModulesCount
    · subst hi
      simp only [Function.update_self, hexited, Nat.le_refl]
    · simp only [Function.update_of_ne hi, Nat.le_refl]

theorem sameExited_of_run {env : RouterEnv} {call : ManagementCall}
    (h : (s.run env call : Call (RouterError ε) StakingRouter) = .ok s') : SameExited s s' := by
  rcases run_ok_cases h with ⟨m, hadded⟩ | ⟨index, m, hchanged⟩
  · exact hadded.sameExited
  · rw [hchanged.router]
    exact sameExited_setStakingModule hchanged.id hchanged.address hchanged.exitedValidatorsCount

theorem SameExited.trans {s'' : StakingRouter} (h : SameExited s s') (h' : SameExited s' s'') :
    SameExited s s'' :=
  ⟨h.1.trans h'.1, fun i => (h'.2 i).trans (h.2 i)⟩

theorem SameModules.sameExited (h : SameModules s s')
    (hexited : ∀ i, (s'.stakingModules i).exitedValidatorsCount
      = (s.stakingModules i).exitedValidatorsCount) : SameExited s s' :=
  ⟨⟨h.count.ge, fun i _ => h.id i, fun i _ => h.address i, fun i => (hexited i).ge⟩, hexited⟩

end StakingRouter

end Catalist
