import Catalist.Lib.Outcome
import Catalist.Pool.Catalist
import Catalist.Router.Invariant
import Mathlib.Algebra.BigOperators.Ring.List

/-!
# The distribution of the fee

`getStakingRewardsDistribution`: every module with active validators gets its part of the fee, by
the share of its validators, and the treasury the rest; the part of a stopped module stays with the
treasury. The result is computed exactly: nothing is cut off by the casts to `uint96`
(`ensures_getStakingRewardsDistribution`).
-/

namespace Catalist

open Solidity Ledger

namespace StakingRouter

variable {ε ρ : Type} (s : StakingRouter) (callees : RouterCallees ε ρ) (world : ρ)

/-- The variables of the loop: the arrays are as long as there are modules. -/
structure RewardsLoop where
  recipients : List Address
  stakingModuleIds : List Nat
  stakingModuleFees : List Nat
  totalFee : Nat
  rewardedStakingModulesCount : Nat

/-- The loop of `getStakingRewardsDistribution`, over the modules that are left. -/
def rewardsLoop (totalActiveValidators : Nat) :
    List StakingModuleCache → RewardsLoop → Call (RouterError ε) RewardsLoop
  | [], l => return l
  | item :: items, l => do
    -- modules without active validators are skipped
    if 0 < item.activeValidatorsCount then do
      let stakingModuleIds ← setIndex l.stakingModuleIds l.rewardedStakingModulesCount
        item.stakingModuleId
      let scaled ← checkedMul 256 item.activeValidatorsCount FEE_PRECISION_POINTS
      let stakingModuleValidatorsShare ← checkedDiv scaled totalActiveValidators
      let recipients ← setIndex l.recipients l.rewardedStakingModulesCount item.stakingModuleAddress
      let scaledFee ← checkedMul 256 stakingModuleValidatorsShare item.stakingModuleFee
      let fee ← checkedDiv scaledFee TOTAL_BASIS_POINTS
      let stakingModuleFee := fee % 2 ^ 96
      let stakingModuleFees ←
        if item.status ≠ .stopped then
          setIndex l.stakingModuleFees l.rewardedStakingModulesCount stakingModuleFee
        else pure l.stakingModuleFees
      let scaledTreasuryFee ← checkedMul 256 stakingModuleValidatorsShare item.treasuryFee
      let treasuryFee ← checkedDiv scaledTreasuryFee TOTAL_BASIS_POINTS
      let fees ← checkedAdd 96 (treasuryFee % 2 ^ 96) stakingModuleFee
      let totalFee ← checkedAdd 96 l.totalFee fees
      rewardsLoop totalActiveValidators items
        { recipients := recipients
          stakingModuleIds := stakingModuleIds
          stakingModuleFees := stakingModuleFees
          totalFee := totalFee
          rewardedStakingModulesCount := l.rewardedStakingModulesCount + 1 }
    else rewardsLoop totalActiveValidators items l

/-- `getStakingRewardsDistribution` -/
def getStakingRewardsDistribution : Call (RouterError ε) StakingRewardsDistribution := do
  let (totalActiveValidators, stakingModulesCache) ← s.loadStakingModulesCache callees world
  let stakingModulesCount := stakingModulesCache.length
  if stakingModulesCount = 0 ∨ totalActiveValidators = 0 then
    return ⟨[], [], [], 0, FEE_PRECISION_POINTS⟩
  else do
    let l ← rewardsLoop totalActiveValidators stakingModulesCache
      { recipients := List.replicate stakingModulesCount 0
        stakingModuleIds := List.replicate stakingModulesCount 0
        stakingModuleFees := List.replicate stakingModulesCount 0
        totalFee := 0
        rewardedStakingModulesCount := 0 }
    ensure (l.totalFee ≤ FEE_PRECISION_POINTS)
    -- the arrays are shrunk to the modules that are rewarded
    return {
      recipients := l.recipients.take l.rewardedStakingModulesCount
      moduleIds := l.stakingModuleIds.take l.rewardedStakingModulesCount
      modulesFees := l.stakingModuleFees.take l.rewardedStakingModulesCount
      totalFee := l.totalFee
      precisionPoints := FEE_PRECISION_POINTS }

/-! ## The fees as numbers -/

section fees

variable (total : Nat) (item : StakingModuleCache)

/-- The share of a module in all active validators. -/
def validatorsShare : Nat := item.activeValidatorsCount * FEE_PRECISION_POINTS / total

def moduleFee : Nat := validatorsShare total item * item.stakingModuleFee / TOTAL_BASIS_POINTS

def treasuryFee : Nat := validatorsShare total item * item.treasuryFee / TOTAL_BASIS_POINTS

/-- What the module is to get itself. -/
def paidFee : Nat := if item.status ≠ .stopped then moduleFee total item else 0

def wholeFee : Nat := treasuryFee total item + moduleFee total item

end fees

/-- The modules that are rewarded. -/
def rewarded (cache : List StakingModuleCache) : List StakingModuleCache :=
  cache.filter fun item => 0 < item.activeValidatorsCount

/-- The distribution of the fee among the modules in the cache. -/
def distributionOf (total : Nat) (cache : List StakingModuleCache) : StakingRewardsDistribution where
  recipients := (rewarded cache).map StakingModuleCache.stakingModuleAddress
  moduleIds := (rewarded cache).map StakingModuleCache.stakingModuleId
  modulesFees := (rewarded cache).map (paidFee total)
  totalFee := ((rewarded cache).map (wholeFee total)).sum
  precisionPoints := FEE_PRECISION_POINTS

variable {s callees world} {total : Nat} {item : StakingModuleCache}
  {cache done : List StakingModuleCache}

/-- The fees of a module are at most its share. -/
theorem wholeFee_le (h : item.stakingModuleFee + item.treasuryFee ≤ TOTAL_BASIS_POINTS) :
    wholeFee total item ≤ validatorsShare total item := by
  unfold wholeFee treasuryFee moduleFee
  refine Nat.div_add_div_le_add_div.trans ?_
  rw [← Nat.mul_add, Nat.add_comm]
  refine Nat.div_le_of_le_mul ?_
  rw [Nat.mul_comm TOTAL_BASIS_POINTS]
  exact Nat.mul_le_mul_left _ h

theorem paidFee_le_wholeFee : paidFee total item ≤ wholeFee total item := by
  unfold paidFee wholeFee
  split
  · exact Nat.le_add_left _ _
  · exact Nat.zero_le _

theorem sum_validatorsShare_le (htotal : 0 < total)
    (hsum : (cache.map StakingModuleCache.activeValidatorsCount).sum = total) :
    (cache.map (validatorsShare total)).sum ≤ FEE_PRECISION_POINTS := by
  refine (sum_map_div_le cache _ total).trans ?_
  rw [List.sum_map_mul_right, hsum, Nat.mul_div_cancel_left _ htotal]

/-- Modules without active validators have no part in the sums. -/
theorem sum_map_rewarded_le (f : StakingModuleCache → Nat) :
    ((rewarded cache).map f).sum ≤ (cache.map f).sum :=
  (List.filter_sublist.map f).sum_le_sum fun _ _ => Nat.zero_le _

theorem sum_paidFee_le : (cache.map (paidFee total)).sum ≤ (cache.map (wholeFee total)).sum :=
  List.sum_le_sum fun _ _ => paidFee_le_wholeFee

theorem sum_wholeFee_le
    (h : ∀ item ∈ cache, item.stakingModuleFee + item.treasuryFee ≤ TOTAL_BASIS_POINTS) :
    (cache.map (wholeFee total)).sum ≤ (cache.map (validatorsShare total)).sum :=
  List.sum_le_sum fun item hitem => wholeFee_le (h item hitem)

/-! ## The loop -/

/-- What the loop has written so far: the entries of the modules that are done, and zeros behind. -/
def written (total : Nat) (done : List StakingModuleCache) (room : Nat) : RewardsLoop where
  recipients := done.map StakingModuleCache.stakingModuleAddress ++ List.replicate room 0
  stakingModuleIds := done.map StakingModuleCache.stakingModuleId ++ List.replicate room 0
  stakingModuleFees := done.map (paidFee total) ++ List.replicate room 0
  totalFee := (done.map (wholeFee total)).sum
  rewardedStakingModulesCount := done.length

theorem setIndex_map_replicate {α : Type} (f : StakingModuleCache → α) (z : α) (room : Nat) :
    (setIndex (done.map f ++ List.replicate (room + 1) z) done.length (f item) :
      Call (RouterError ε) (List α)) = .ok ((done ++ [item]).map f ++ List.replicate room z) := by
  refine setIndex_eq_ok.mpr ⟨?_, ?_⟩
  · rw [List.length_append, List.length_map, List.length_replicate]
    omega
  · rw [List.replicate_succ, List.set_append_right _ _ (by rw [List.length_map]), List.length_map,
      Nat.sub_self, List.set_cons_zero, List.map_append, List.append_assoc]
    rfl

/-- The arrays are shrunk to what was written. -/
theorem take_map_append {α : Type} (f : StakingModuleCache → α) (rest : List α) :
    (done.map f ++ rest).take done.length = done.map f :=
  List.take_left' (List.length_map f)

/-- The product that the loop computes for an item does not fit. -/
def Overflows (cache : List StakingModuleCache) (r : Revert (RouterError ε)) : Prop :=
  r = .panic .overflow ∧
    ∃ item ∈ cache, 2 ^ 256 ≤ item.activeValidatorsCount * FEE_PRECISION_POINTS

/-- A share of at most 100 percent leaves room for all that is computed from it. -/
theorem fits_of_share_le {share fee : Nat} (hshare : share ≤ FEE_PRECISION_POINTS)
    (hfee : fee ≤ TOTAL_BASIS_POINTS) :
    share * fee < 2 ^ 256 ∧ share * fee / TOTAL_BASIS_POINTS < 2 ^ 96 := by
  have hproduct : share * fee ≤ FEE_PRECISION_POINTS * TOTAL_BASIS_POINTS :=
    Nat.mul_le_mul hshare hfee
  unfold FEE_PRECISION_POINTS TOTAL_BASIS_POINTS at *
  omega

/-- One rewarded module whose numbers fit. -/
theorem rewardsLoop_cons {items : List StakingModuleCache} {room : Nat} (htotal : 0 < total)
    (hactive : 0 < item.activeValidatorsCount)
    (hfits : item.activeValidatorsCount * FEE_PRECISION_POINTS < 2 ^ 256)
    (hchecked : item.stakingModuleFee + item.treasuryFee ≤ TOTAL_BASIS_POINTS)
    (hfees : (done.map (wholeFee total)).sum + validatorsShare total item ≤ FEE_PRECISION_POINTS) :
    (rewardsLoop total (item :: items) (written total done (room + 1)) :
      Call (RouterError ε) RewardsLoop)
      = rewardsLoop total items (written total (done ++ [item]) room) := by
  have hshare : validatorsShare total item ≤ FEE_PRECISION_POINTS :=
    (Nat.le_add_left _ _).trans hfees
  obtain ⟨hmodule, hmodule96⟩ := fits_of_share_le hshare ((Nat.le_add_right _ _).trans hchecked)
  obtain ⟨htreasury, htreasury96⟩ := fits_of_share_le hshare ((Nat.le_add_left _ _).trans hchecked)
  have hwhole : wholeFee total item ≤ validatorsShare total item := wholeFee_le hchecked
  have hpoints : TOTAL_BASIS_POINTS ≠ 0 := by decide
  have hboth : treasuryFee total item + moduleFee total item < 2 ^ 96 := by
    unfold wholeFee FEE_PRECISION_POINTS at *
    omega
  have hsum : (done.map (wholeFee total)).sum + (treasuryFee total item + moduleFee total item)
      < 2 ^ 96 := by
    unfold wholeFee FEE_PRECISION_POINTS at *
    omega
  have hlater : written total (done ++ [item]) room = {
      recipients := (written total (done ++ [item]) room).recipients
      stakingModuleIds := (written total (done ++ [item]) room).stakingModuleIds
      stakingModuleFees := (written total (done ++ [item]) room).stakingModuleFees
      totalFee := (done.map (wholeFee total)).sum + (treasuryFee total item + moduleFee total item)
      rewardedStakingModulesCount :=
        (written total done (room + 1)).rewardedStakingModulesCount + 1 } := by
    simp only [written, List.map_append, List.sum_append, List.map_singleton, List.sum_singleton,
      List.length_append, List.length_singleton, wholeFee]
  have hids : setIndex (written total done (room + 1)).stakingModuleIds
      (written total done (room + 1)).rewardedStakingModulesCount item.stakingModuleId
      = (.ok (written total (done ++ [item]) room).stakingModuleIds : Call (RouterError ε) _) :=
    setIndex_map_replicate _ _ _
  have hrecipients : setIndex (written total done (room + 1)).recipients
      (written total done (room + 1)).rewardedStakingModulesCount item.stakingModuleAddress
      = (.ok (written total (done ++ [item]) room).recipients : Call (RouterError ε) _) :=
    setIndex_map_replicate _ _ _
  have hpaid : setIndex (written total done (room + 1)).stakingModuleFees
      (written total done (room + 1)).rewardedStakingModulesCount (paidFee total item)
      = (.ok (written total (done ++ [item]) room).stakingModuleFees : Call (RouterError ε) _) :=
    setIndex_map_replicate _ _ _
  rw [rewardsLoop, if_pos hactive, hids, ok_bind, checkedMul_of hfits, ok_bind,
    checkedDiv_of htotal.ne', ok_bind, hrecipients, ok_bind]
  have hshareEq : item.activeValidatorsCount * FEE_PRECISION_POINTS / total
      = validatorsShare total item := rfl
  have hmoduleEq : validatorsShare total item * item.stakingModuleFee / TOTAL_BASIS_POINTS
      = moduleFee total item := rfl
  have htreasuryEq : validatorsShare total item * item.treasuryFee / TOTAL_BASIS_POINTS
      = treasuryFee total item := rfl
  rw [hshareEq, checkedMul_of hmodule, ok_bind, checkedDiv_of hpoints, ok_bind]
  simp only [Nat.mod_eq_of_lt hmodule96]
  rw [hmoduleEq]
  rw [htreasuryEq] at htreasury96
  have hdone : (written total done (room + 1)).totalFee = (done.map (wholeFee total)).sum := rfl
  by_cases hstatus : item.status ≠ .stopped
  · rw [paidFee, if_pos hstatus] at hpaid
    rw [if_pos hstatus, hpaid, ok_bind, checkedMul_of htreasury, ok_bind, checkedDiv_of hpoints,
      ok_bind, htreasuryEq, Nat.mod_eq_of_lt htreasury96, checkedAdd_of hboth, ok_bind, hdone,
      checkedAdd_of hsum, ok_bind]
    exact congrArg _ hlater.symm
  · -- a stopped module keeps the zero that is there
    have hzero : (written total done (room + 1)).stakingModuleFees
        = (written total (done ++ [item]) room).stakingModuleFees := by
      simp only [written, List.map_append, List.map_singleton, paidFee, if_neg hstatus,
        List.replicate_succ, List.append_assoc, List.singleton_append]
    rw [if_neg hstatus, pure_bind, checkedMul_of htreasury, ok_bind, checkedDiv_of hpoints,
      ok_bind, htreasuryEq, Nat.mod_eq_of_lt htreasury96, checkedAdd_of hboth, ok_bind, hdone,
      checkedAdd_of hsum, ok_bind, hzero]
    exact congrArg _ hlater.symm

/--
The sum of the fees that are there and the shares that are to come is the invariant that bounds every
number.
-/
theorem ensures_rewardsLoop (htotal : 0 < total) {items : List StakingModuleCache}
    (hitems : ∀ item ∈ items, item ∈ cache)
    (hchecked : ∀ item ∈ items,
      item.stakingModuleFee + item.treasuryFee ≤ TOTAL_BASIS_POINTS) {room : Nat}
    (hroom : items.length ≤ room)
    (hfees : (done.map (wholeFee total)).sum + (items.map (validatorsShare total)).sum
      ≤ FEE_PRECISION_POINTS) :
    Ensures (Overflows cache)
      (rewardsLoop total items (written total done room) : Call (RouterError ε) RewardsLoop)
      fun l => ∃ room', l = written total (done ++ rewarded items) room' := by
  induction items generalizing done room with
  | nil =>
    refine ensures_pure ⟨room, ?_⟩
    rw [rewarded, List.filter_nil, List.append_nil]
  | cons item items ih =>
    have hrest : ∀ item ∈ items, item ∈ cache := fun i hi => hitems i (List.mem_cons_of_mem _ hi)
    have hrestChecked : ∀ item ∈ items,
        item.stakingModuleFee + item.treasuryFee ≤ TOTAL_BASIS_POINTS :=
      fun i hi => hchecked i (List.mem_cons_of_mem _ hi)
    have hone := hchecked item (List.mem_cons_self ..)
    rw [List.map_cons, List.sum_cons] at hfees
    obtain ⟨room, rfl⟩ : ∃ r, room = r + 1 := ⟨room - 1, by
      rw [List.length_cons] at hroom
      omega⟩
    rw [List.length_cons] at hroom
    by_cases hactive : 0 < item.activeValidatorsCount
    · have hmine : rewarded (item :: items) = [item] ++ rewarded items := by
        unfold rewarded
        rw [List.filter_cons, if_pos (decide_eq_true hactive), List.singleton_append]
      by_cases hfits : item.activeValidatorsCount * FEE_PRECISION_POINTS < 2 ^ 256
      · rw [rewardsLoop_cons htotal hactive hfits hone (by omega), hmine, ← List.append_assoc]
        refine ih hrest hrestChecked (by omega) ?_
        rw [List.map_append, List.sum_append, List.map_singleton, List.sum_singleton]
        have hwhole : wholeFee total item ≤ validatorsShare total item := wholeFee_le hone
        omega
      · -- the first product is the only one that is not bounded by the shares
        unfold rewardsLoop
        rw [if_pos hactive]
        have hids : setIndex (written total done (room + 1)).stakingModuleIds
            (written total done (room + 1)).rewardedStakingModulesCount item.stakingModuleId
            = (.ok (written total (done ++ [item]) room).stakingModuleIds :
              Call (RouterError ε) _) :=
          setIndex_map_replicate _ _ _
        rw [hids, ok_bind, checkedMul, if_neg hfits]
        exact ensures_error ⟨rfl, item, hitems item (List.mem_cons_self ..), Nat.le_of_not_lt hfits⟩
    · have hskip : rewarded (item :: items) = rewarded items := by
        unfold rewarded
        rw [List.filter_cons, if_neg (by simpa using hactive)]
      unfold rewardsLoop
      rw [if_neg hactive, hskip]
      exact ih hrest hrestChecked (by omega) (by omega)

/-! ## The whole distribution -/

/-- What is relied on when the fee is split further. -/
structure FeeBounded (d : StakingRewardsDistribution) : Prop where
  recipients_length : d.recipients.length = d.modulesFees.length
  moduleIds_length : d.moduleIds.length = d.modulesFees.length
  sum_le : d.modulesFees.sum ≤ d.totalFee
  totalFee_le : d.totalFee ≤ FEE_PRECISION_POINTS
  precisionPoints : d.precisionPoints = FEE_PRECISION_POINTS

theorem Cached.map_active {is : List Nat} (h : s.Cached callees world is cache) :
    cache.map StakingModuleCache.activeValidatorsCount
      = is.map fun i => s.activeValidatorsCount callees world i := by
  induction h with
  | nil => rfl
  | cons hitem _ ih => rw [List.map_cons, List.map_cons, ih, loadStakingModulesCacheItem_ok_cases hitem]

theorem Managed.fees_le (h : Managed s)
    (hcached : s.Cached callees world (List.range s.stakingModulesCount) cache) :
    ∀ item ∈ cache, item.stakingModuleFee + item.treasuryFee ≤ TOTAL_BASIS_POINTS := by
  intro item hitem
  obtain ⟨i, hi, rfl⟩ := List.mem_iff_getElem.mp hitem
  have hlt : i < s.stakingModulesCount := hcached.length ▸ hi
  obtain ⟨item, hget, hload⟩ := hcached.exists_item hlt
  obtain rfl := Option.some.inj ((List.getElem?_eq_getElem hi).symm.trans hget)
  rw [loadStakingModulesCacheItem_ok_cases hload]
  exact (h.checked i hlt).fees_le

theorem rewarded_eq_nil (h : (cache.map StakingModuleCache.activeValidatorsCount).sum = 0) :
    rewarded cache = [] := by
  refine List.filter_eq_nil_iff.mpr fun item hitem hactive => ?_
  have hzero := List.sum_eq_zero_iff.mp h _ (List.mem_map_of_mem hitem)
  have hpos := of_decide_eq_true hactive
  omega

/-- The fees are at most the shares of the modules, and those are parts of one whole. -/
theorem feeBounded_distributionOf
    (hchecked : ∀ item ∈ cache, item.stakingModuleFee + item.treasuryFee ≤ TOTAL_BASIS_POINTS)
    (hsum : (cache.map StakingModuleCache.activeValidatorsCount).sum = total) :
    FeeBounded (distributionOf total cache) where
  recipients_length := by simp only [distributionOf, List.length_map]
  moduleIds_length := by simp only [distributionOf, List.length_map]
  sum_le := sum_paidFee_le
  totalFee_le := by
    unfold distributionOf
    rcases Nat.eq_zero_or_pos total with rfl | htotal
    · rw [rewarded_eq_nil hsum]
      exact Nat.zero_le _
    · calc ((rewarded cache).map (wholeFee total)).sum
          ≤ (cache.map (wholeFee total)).sum := sum_map_rewarded_le _
        _ ≤ (cache.map (validatorsShare total)).sum := sum_wholeFee_le hchecked
        _ ≤ FEE_PRECISION_POINTS := sum_validatorsShare_le htotal hsum
  precisionPoints := rfl

/-- The assertion holds, and no cast cuts anything off; only a product can be too large. -/
theorem ensures_getStakingRewardsDistribution (h : Managed s)
    (hload : s.loadStakingModulesCache callees world = .ok (total, cache)) :
    Ensures (Overflows cache) (s.getStakingRewardsDistribution callees world)
      fun d => d = distributionOf total cache ∧ FeeBounded d := by
  obtain ⟨hcached, htotal⟩ := loadStakingModulesCache_ok_cases hload
  have hsum : (cache.map StakingModuleCache.activeValidatorsCount).sum = total := by
    rw [hcached.map_active, htotal]
    rfl
  have hchecked := h.fees_le hcached
  have hbounded := feeBounded_distributionOf hchecked hsum
  unfold getStakingRewardsDistribution
  rw [hload, ok_bind]
  simp only
  split
  · next hnone =>
    -- a router without modules has no active validators either
    have hzero : (cache.map StakingModuleCache.activeValidatorsCount).sum = 0 := by
      rcases hnone with hnone | hnone
      · rw [List.length_eq_zero_iff.mp hnone]
        rfl
      · rw [hsum, hnone]
    have hempty : distributionOf total cache = ⟨[], [], [], 0, FEE_PRECISION_POINTS⟩ := by
      rw [distributionOf, rewarded_eq_nil hzero]
      rfl
    rw [hempty] at hbounded ⊢
    exact ensures_pure ⟨rfl, hbounded⟩
  · next hsome =>
    have htotal : 0 < total := by omega
    have hshares := sum_validatorsShare_le htotal hsum
    have hstart : (([] : List StakingModuleCache).map (wholeFee total)).sum +
        (cache.map (validatorsShare total)).sum ≤ FEE_PRECISION_POINTS := by
      rw [List.map_nil, List.sum_nil, Nat.zero_add]
      exact hshares
    refine (ensures_rewardsLoop htotal (fun _ hitem => hitem) hchecked le_rfl hstart).bind
      fun l hl => ?_
    obtain ⟨room, rfl⟩ := hl
    refine (ensures_ensure hbounded.totalFee_le).bind fun _ _ => ensures_pure ?_
    rw [List.nil_append]
    simp only [written, take_map_append]
    exact ⟨rfl, hbounded⟩

end StakingRouter

end Catalist
