import Catalist.Pool.Accounting
import Catalist.Pool.BurnerCoverage
import Catalist.Router.Deposits
import Catalist.Router.Rewards

/-!
# What becomes of the fee

The pool mints shares for the fee and splits them: each module is transferred its part, rounded
down, and the treasury the rest. Whatever the router hands out, the minted shares are enough for the
transfers, and all of them leave the pool (`fees_distributed`).
-/

namespace Catalist

open Solidity Ledger Transition

namespace Pool

/-- The parts of `totalRewards` for modules with the given fees, in parts of the total fee. -/
def rewardsOf (totalFee totalRewards : Nat) (modules : List (Address × Nat)) :
    List (Address × Nat) :=
  modules.map fun m => (m.1, totalRewards * m.2 / totalFee)

/-- The shares for each module, of the shares that are minted. -/
def moduleRewards (distribution : StakingRewardsDistribution) (minted : Nat) :
    List (Address × Nat) :=
  rewardsOf distribution.totalFee minted (distribution.recipients.zip distribution.modulesFees)

/-- What an account gets of the rewards. -/
def paidTo (a : Address) : List (Address × Nat) → Nat
  | [] => 0
  | (recipient, reward) :: rewards => (if recipient = a then reward else 0) + paidTo a rewards

def sumOf (rewards : List (Address × Nat)) : Nat := (rewards.map Prod.snd).sum

/-- The rewards went from the pool to the recipients. -/
structure Split (s s' : Pool) (rewards : List (Address × Nat)) : Prop where
  pool : s' = { s with token := s'.token }
  self : s'.token.self = s.token.self
  totalShares : s'.token.totalShares = s.token.totalShares
  taken : s'.token.shares s.token.self + sumOf rewards = s.token.shares s.token.self
  given : ∀ a ≠ s.token.self, s'.token.shares a = s.token.shares a + paidTo a rewards

variable {s s' s₁ : Pool} {distribution : StakingRewardsDistribution} {recipient : Address}
  {n reward : Nat} {xs ys : List (Address × Nat)}

theorem paidTo_append (a : Address) : paidTo a (xs ++ ys) = paidTo a xs + paidTo a ys := by
  induction xs with
  | nil => rw [List.nil_append, paidTo, Nat.zero_add]
  | cons x xs ih => rw [List.cons_append, paidTo, paidTo, ih, Nat.add_assoc]

theorem sumOf_append : sumOf (xs ++ ys) = sumOf xs + sumOf ys := by
  unfold sumOf
  rw [List.map_append, List.sum_append]

theorem paidTo_le_sumOf (a : Address) : paidTo a xs ≤ sumOf xs := by
  induction xs with
  | nil => exact Nat.zero_le _
  | cons x xs ih =>
    have hcons : sumOf (x :: xs) = x.2 + sumOf xs := rfl
    rw [paidTo, hcons]
    split
    · exact Nat.add_le_add_left ih _
    · rw [Nat.zero_add]
      exact ih.trans (Nat.le_add_left _ _)

theorem Split.nil : Split s s [] := ⟨rfl, rfl, rfl, rfl, fun _ _ => rfl⟩

theorem Split.append (h₁ : Split s s₁ xs) (h₂ : Split s₁ s' ys) : Split s s' (xs ++ ys) where
  pool := by rw [h₂.pool, h₁.pool]
  self := h₂.self.trans h₁.self
  totalShares := h₂.totalShares.trans h₁.totalShares
  taken := by
    have h₁taken := h₁.taken
    have h₂taken := h₂.taken
    rw [h₁.self] at h₂taken
    rw [sumOf_append]
    omega
  given a ha := by
    have h₂given := h₂.given a (h₁.self.symm ▸ ha)
    rw [paidTo_append, h₂given, h₁.given a ha, Nat.add_assoc]

/-- A reward of zero is not transferred. -/
theorem Split.zero : Split s s [(recipient, 0)] := by
  refine ⟨rfl, rfl, rfl, rfl, fun a _ => ?_⟩
  rw [paidTo, paidTo, ite_self]
  rfl

/-- The pool cannot be paid itself. -/
theorem split_of_transferSharesInternal {token : BACE}
    (h : s.token.transferSharesInternal s.token.self recipient reward = .ok token) :
    Split s { s with token := token } [(recipient, reward)] := by
  obtain ⟨-, -, hne, -, hle, rfl⟩ := BACE.transferSharesInternal_ok_cases h
  refine ⟨rfl, rfl, rfl, ?_, fun a ha => ?_⟩
  · simp only [BACE.withShares, move, sumOf, List.map_singleton, List.sum_singleton,
      Function.update_of_ne hne.symm, Function.update_self]
    omega
  · simp only [BACE.withShares, paidTo, Nat.add_zero]
    by_cases hrecipient : recipient = a
    · subst hrecipient
      rw [if_pos rfl, move_to ha]
    · rw [if_neg hrecipient, move_of_ne ha (Ne.symm hrecipient), Nat.add_zero]

/-! ## The minted shares are enough -/

theorem sufficient_transferShares (h : reward ≤ s.token.shares s.token.self) :
    Ensures Sufficient (s.token.transferSharesInternal s.token.self recipient reward)
      fun token => Split s { s with token := token } [(recipient, reward)] := by
  refine ⟨split_of_transferSharesInternal, fun herror => ?_⟩
  exact (ensures_transferShares h).of_error herror

theorem sufficient_emitTransfer (t : BACE) :
    Ensures Sufficient (t.emitTransferAfterMintingShares s.getTotalPooledAce n) fun _ => True :=
  (ensures_priced t).bind fun _ _ => ensures_pure trivial

theorem sufficient_transferTreasuryRewards (h : reward ≤ s.token.shares s.token.self) :
    Ensures Sufficient (s.transferTreasuryRewards reward) fun s' =>
      Split s s' [(s.locator.treasury, reward)] := by
  unfold transferTreasuryRewards
  refine (sufficient_transferShares h).bind fun token htransfer => ?_
  exact (sufficient_emitTransfer _).bind fun _ _ => ensures_pure htransfer

/-- The induction is over the modules that are left; the pool has the shares for all of them. -/
theorem sufficient_transferModuleRewards {totalFee totalRewards given : Nat}
    {modules : List (Address × Nat)} (hfee : totalFee ≠ 0)
    (h : sumOf (rewardsOf totalFee totalRewards modules) ≤ s.token.shares s.token.self) :
    Ensures Sufficient (transferModuleRewards totalFee totalRewards s given modules) fun r =>
      Split s r.1 (rewardsOf totalFee totalRewards modules) ∧
      r.2 = given + sumOf (rewardsOf totalFee totalRewards modules) := by
  induction modules generalizing s given with
  | nil => exact ensures_pure ⟨Split.nil, rfl⟩
  | cons m modules ih =>
    obtain ⟨recipient, moduleFee⟩ := m
    have hcons : rewardsOf totalFee totalRewards ((recipient, moduleFee) :: modules)
        = [(recipient, totalRewards * moduleFee / totalFee)] ++
          rewardsOf totalFee totalRewards modules := rfl
    have hone : sumOf [(recipient, totalRewards * moduleFee / totalFee)]
        = totalRewards * moduleFee / totalFee := rfl
    rw [hcons, sumOf_append, hone] at h ⊢
    unfold transferModuleRewards
    split
    · refine (ensures_checkedMul sufficient_overflow).bind fun _ hproduct => ?_
      subst hproduct
      refine (ensures_checkedDiv hfee).bind fun reward hreward => ?_
      subst hreward
      refine (sufficient_transferShares (by omega)).bind fun token htransfer => ?_
      refine (sufficient_emitTransfer _).bind fun _ _ => ?_
      refine (ensures_checkedAdd sufficient_overflow).bind fun _ hgiven => ?_
      subst hgiven
      have htaken := htransfer.taken
      rw [hone] at htaken
      refine (ih ?_).mono fun r hr => ?_
      · rw [htransfer.self]
        omega
      · exact ⟨htransfer.append hr.1, by rw [hr.2, Nat.add_assoc]⟩
    · next hzero =>
      obtain rfl : moduleFee = 0 := by omega
      rw [Nat.mul_zero, Nat.zero_div, Nat.zero_add] at h ⊢
      exact (ih h).mono fun r hr => ⟨Split.zero.append hr.1, hr.2⟩

/-- The parts of the modules are at most what is minted, since their fees are part of the whole. -/
theorem sumOf_moduleRewards_le (h : StakingRouter.FeeBounded distribution) :
    sumOf (moduleRewards distribution n) ≤ n := by
  have hfees : (distribution.recipients.zip distribution.modulesFees).map Prod.snd
      = distribution.modulesFees := List.map_snd_zip h.recipients_length.ge
  calc sumOf (moduleRewards distribution n)
      = ((distribution.recipients.zip distribution.modulesFees).map
          fun m => n * m.2 / distribution.totalFee).sum := by
        rw [sumOf, moduleRewards, rewardsOf, List.map_map]
        rfl
    _ ≤ ((distribution.recipients.zip distribution.modulesFees).map fun m => n * m.2).sum /
          distribution.totalFee := sum_map_div_le _ _ _
    _ = n * distribution.modulesFees.sum / distribution.totalFee := by
        rw [List.sum_map_mul_left]
        exact congrArg (fun fees => n * List.sum fees / _) hfees
    _ ≤ n := Nat.div_le_of_le_mul (by
        rw [Nat.mul_comm]
        exact Nat.mul_le_mul_right _ h.sum_le)

/-- The fee is at most the rewards, so the divisor is no negative number. -/
theorem sufficient_feeShares (h : StakingRouter.FeeBounded distribution) {T S rewards : Nat} :
    Ensures Sufficient (feeShares distribution T S rewards) fun _ => True := by
  refine (ensures_checkedAdd sufficient_overflow).bind fun _ htotal => ?_
  refine (ensures_checkedMul sufficient_overflow).bind fun _ hfee => ?_
  refine (ensures_checkedMul sufficient_overflow).bind fun _ _ => ?_
  refine (ensures_checkedMul sufficient_overflow).bind fun _ hscaled => ?_
  subst htotal hfee hscaled
  refine (ensures_checkedSub ?_).bind fun _ _ => ?_
  · rw [h.precisionPoints]
    exact Nat.mul_le_mul (Nat.le_add_left _ _) h.totalFee_le
  · exact (ensures_division sufficient_divisionByZero).mono fun _ _ => trivial

/-- The pool after shares were minted to it. -/
def minted (s : Pool) (n : Nat) : Pool :=
  { s with
    token := { s.token with
      totalShares := s.token.totalShares + n
      shares := Function.update s.token.shares s.token.self (s.token.shares s.token.self + n) } }

theorem sufficient_mintShares :
    Ensures Sufficient (s.token.mintShares s.token.self n) fun r =>
      ({ s with token := r.1 } : Pool) = s.minted n := by
  refine (ensures_require ⟨nofun, nofun⟩).bind fun _ _ => ?_
  refine (ensures_checkedAdd sufficient_overflow).bind fun _ htotal => ?_
  refine (ensures_checkedAdd sufficient_overflow).bind fun _ hshares => ?_
  subst htotal hshares
  exact ensures_pure rfl

/-- The minted shares are split: nothing of them stays with the pool. -/
structure FeeSplit (s s' : Pool) (distribution : StakingRewardsDistribution)
    (minted treasuryReward : Nat) : Prop where
  sum_eq : sumOf (moduleRewards distribution minted) + treasuryReward = minted
  self : s'.token.self = s.token.self
  totalShares : s'.token.totalShares = s.token.totalShares + minted
  kept : s'.token.shares s.token.self = s.token.shares s.token.self
  given : ∀ a ≠ s.token.self, s'.token.shares a = s.token.shares a +
    paidTo a (moduleRewards distribution minted ++ [(s.locator.treasury, treasuryReward)])

/-- Where nothing is minted there is nothing to split. -/
theorem FeeSplit.none (h : StakingRouter.FeeBounded distribution) :
    FeeSplit s s distribution 0 0 := by
  have hsum : sumOf (moduleRewards distribution 0) = 0 :=
    Nat.le_zero.mp (sumOf_moduleRewards_le h)
  refine ⟨hsum, rfl, rfl, rfl, fun a _ => ?_⟩
  have hpaid : paidTo a (moduleRewards distribution 0 ++ [(s.locator.treasury, 0)]) ≤
      sumOf (moduleRewards distribution 0 ++ [(s.locator.treasury, 0)]) := paidTo_le_sumOf a
  rw [sumOf_append, hsum] at hpaid
  rw [Nat.le_zero.mp hpaid, Nat.add_zero]

theorem FeeSplit.of_split {treasuryReward : Nat}
    (hsum : sumOf (moduleRewards distribution n) + treasuryReward = n)
    (h : Split (s.minted n) s'
      (moduleRewards distribution n ++ [(s.locator.treasury, treasuryReward)])) :
    FeeSplit s s' distribution n treasuryReward := by
  have htaken := h.taken
  have hself : (s.minted n).token.shares (s.minted n).token.self
      = s.token.shares s.token.self + n := Function.update_self ..
  have hall : sumOf (moduleRewards distribution n ++ [(s.locator.treasury, treasuryReward)]) = n := by
    rw [sumOf_append]
    exact hsum
  rw [hself, hall] at htaken
  refine ⟨hsum, h.self, h.totalShares, Nat.add_right_cancel htaken, fun a ha => ?_⟩
  have hother : (s.minted n).token.shares a = s.token.shares a := Function.update_of_ne ha _ _
  rw [h.given a ha, hother]

/-- The treasury gets what the modules leave, and that is all the pool has left of the mint. -/
theorem sufficient_distributeFee (h : StakingRouter.FeeBounded distribution) {T S rewards : Nat} :
    Ensures Sufficient (s.distributeFee distribution T S rewards) fun r =>
      ∃ treasuryReward, FeeSplit s r.1 distribution r.2 treasuryReward := by
  unfold distributeFee
  refine (ensures_require_of h.recipients_length).bind fun _ _ => ?_
  refine (ensures_require_of h.moduleIds_length).bind fun _ _ => ?_
  split
  · next hpos =>
    refine (sufficient_feeShares h).bind fun n _ => ?_
    refine sufficient_mintShares.bind fun r hmint => ?_
    have hle : sumOf (moduleRewards distribution n) ≤ n := sumOf_moduleRewards_le h
    have hself : (s.minted n).token.shares (s.minted n).token.self
        = s.token.shares s.token.self + n := Function.update_self ..
    simp only [hmint]
    refine (sufficient_transferModuleRewards hpos.ne' ?_).bind fun r hmodules => ?_
    · rw [hself]
      exact hle.trans (Nat.le_add_left _ _)
    · obtain ⟨s₂, given⟩ := r
      obtain ⟨hsplit, rfl⟩ := hmodules
      change Split _ s₂ (moduleRewards distribution n) at hsplit
      rw [Nat.zero_add]
      refine (ensures_checkedSub hle).bind fun treasuryReward htreasury => ?_
      have hleft := hsplit.taken
      rw [hself] at hleft
      refine (sufficient_transferTreasuryRewards ?_).bind fun s₃ hlast => ensures_pure ?_
      · change treasuryReward ≤ s₂.token.shares s₂.token.self
        rw [hsplit.self]
        omega
      · have hsum : sumOf (moduleRewards distribution n) + treasuryReward = n := by omega
        have htreasury : s₂.locator.treasury = s.locator.treasury := by
          rw [hsplit.pool]
          rfl
        rw [htreasury] at hlast
        exact ⟨treasuryReward, FeeSplit.of_split hsum (hsplit.append hlast)⟩
  · next hzero => exact ensures_pure ⟨0, FeeSplit.none h⟩

end Pool

namespace StakingRouter

variable {ε ρ : Type}

/--
The distribution loses nothing. It is computed without rounding other than that of its divisions,
and reverts only if a product is too large; then the pool splits all shares that it mints.
-/
theorem fees_distributed {s : StakingRouter} (h : Reachable Fresh RouterStep s)
    (callees : RouterCallees ε ρ) (world : ρ) :
    (∀ total cache, s.loadStakingModulesCache callees world = .ok (total, cache) →
      ((∀ item ∈ cache, item.activeValidatorsCount * FEE_PRECISION_POINTS < 2 ^ 256) →
        s.getStakingRewardsDistribution callees world = .ok (distributionOf total cache)) ∧
      (∀ d, s.getStakingRewardsDistribution callees world = .ok d → d = distributionOf total cache) ∧
      ∀ r, s.getStakingRewardsDistribution callees world = .error r → Overflows cache r) ∧
    ∀ d, s.getStakingRewardsDistribution callees world = .ok d →
      d.modulesFees.sum ≤ d.totalFee ∧ d.totalFee ≤ FEE_PRECISION_POINTS ∧
      ∀ (p : Pool) (preTotalPooledAce preTotalShares totalRewards : Nat),
        (∀ r, p.distributeFee d preTotalPooledAce preTotalShares totalRewards = .error r →
          r ≠ .panic .underflow ∧ r ≠ .error .balanceExceeded) ∧
        ∀ p' minted,
          p.distributeFee d preTotalPooledAce preTotalShares totalRewards = .ok (p', minted) →
          ∃ treasuryReward, Pool.FeeSplit p p' d minted treasuryReward := by
  have hmanaged := managed_of_reachable h
  refine ⟨fun total cache hload => ?_, fun d hd => ?_⟩
  · have hends := ensures_getStakingRewardsDistribution hmanaged hload
    refine ⟨fun hfits => ?_, fun d hd => (hends.of_ok hd).1, fun r hr => hends.of_error hr⟩
    cases hcall : s.getStakingRewardsDistribution callees world with
    | ok d => rw [(hends.of_ok hcall).1]
    | error r =>
      obtain ⟨-, item, hitem, hlarge⟩ := hends.of_error hcall
      exact absurd (hfits item hitem) (Nat.not_lt.mpr hlarge)
  · have hbounded : FeeBounded d := by
      obtain ⟨⟨total, cache⟩, hload, -⟩ := bind_eq_ok.mp hd
      exact ((ensures_getStakingRewardsDistribution hmanaged hload).of_ok hd).2
    refine ⟨hbounded.sum_le, hbounded.totalFee_le, fun p T S rewards => ?_⟩
    have hsplit : Ensures Pool.Sufficient (p.distributeFee d T S rewards) fun r =>
        ∃ treasuryReward, Pool.FeeSplit p r.1 d r.2 treasuryReward :=
      Pool.sufficient_distributeFee hbounded
    exact ⟨fun r hr => ⟨(hsplit.of_error hr).2, (hsplit.of_error hr).1⟩,
      fun p' minted hp => hsplit.of_ok hp⟩

/-! Two modules are added, and the second is stopped. -/

def exampleBare : StakingRouter where
  catalist := 1
  withdrawalCredentials := 5
  stakingModules := fun _ => ⟨0, 0, 0, 0, 0, .active, [], 0, 0, 0⟩
  stakingModulesCount := 0
  stakingModuleIndicesOneBased := fun _ => 0
  lastStakingModuleId := 0
  hasRole := fun _ account => decide (account = 12)
  balance := 0

def exampleOne : StakingRouter :=
  result (exampleBare.addStakingModule exampleDepositEnv [1] 21 10000 500 500 :
    Call (RouterError Unit) _) (by decide +kernel)

def exampleTwo : StakingRouter :=
  result (exampleOne.addStakingModule exampleDepositEnv [2] 22 10000 300 900 :
    Call (RouterError Unit) _) (by decide +kernel)

def exampleStopped : StakingRouter :=
  result (exampleTwo.setStakingModuleStatus exampleDepositEnv 2 .stopped :
    Call (RouterError Unit) _) (by decide +kernel)

theorem reachable_exampleStopped : Reachable Fresh RouterStep exampleStopped := by
  have hbare : Fresh exampleBare := ⟨rfl, rfl, fun _ => rfl⟩
  have hone : RouterStep exampleBare exampleOne :=
    .manage (.addStakingModule [1] 21 10000 500 500) (eq_ok_result
      (exampleBare.addStakingModule exampleDepositEnv [1] 21 10000 500 500) (by decide +kernel))
  have htwo : RouterStep exampleOne exampleTwo :=
    .manage (.addStakingModule [2] 22 10000 300 900) (eq_ok_result
      (exampleOne.addStakingModule exampleDepositEnv [2] 22 10000 300 900) (by decide +kernel))
  have hstopped : RouterStep exampleTwo exampleStopped :=
    .manage (.setStakingModuleStatus 2 .stopped) (eq_ok_result
      (exampleTwo.setStakingModuleStatus exampleDepositEnv 2 .stopped) (by decide +kernel))
  exact (((Reachable.init hbare).step hone).step htwo).step hstopped

def exampleFee : StakingRewardsDistribution :=
  result (exampleStopped.getStakingRewardsDistribution exampleCallees 0) (by decide +kernel)

def exampleSplit : Pool × Nat :=
  result (Pool.exampleStart.distributeFee exampleFee (64 * 10 ^ 18) (64 * 10 ^ 18) (10 ^ 18))
    (by decide +kernel)

/-- With 10 and 2 active validators; the fee of the second module goes to the treasury. -/
theorem fees_distributed_stopped_module :
    exampleFee.modulesFees.sum ≤ exampleFee.totalFee ∧
      ∃ treasuryReward,
        Pool.FeeSplit Pool.exampleStart exampleSplit.1 exampleFee exampleSplit.2 treasuryReward := by
  have hfee := eq_ok_result (exampleStopped.getStakingRewardsDistribution exampleCallees 0)
    (by decide +kernel)
  have hrun := eq_ok_result (Pool.exampleStart.distributeFee exampleFee (64 * 10 ^ 18)
    (64 * 10 ^ 18) (10 ^ 18)) (by decide +kernel)
  obtain ⟨hsum, -, hpool⟩ :=
    (fees_distributed reachable_exampleStopped exampleCallees 0).2 exampleFee hfee
  obtain ⟨-, hsplit⟩ := hpool Pool.exampleStart (64 * 10 ^ 18) (64 * 10 ^ 18) (10 ^ 18)
  exact ⟨hsum, hsplit exampleSplit.1 exampleSplit.2 hrun⟩

example : exampleFee.modulesFees = [4166666666666666666, 0] ∧
    exampleFee.totalFee = 10333333333333333330 ∧ exampleSplit.2 = 101905593507627510 := by
  decide +kernel

end StakingRouter

end Catalist
