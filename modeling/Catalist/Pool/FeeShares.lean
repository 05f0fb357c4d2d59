import Catalist.Pool.Dilution

/-!
# The shares that are minted as fees

A profitable report mints shares for a part of the rewards. They are worth at most this part, by less
than one share, and the shares of the holders do not lose worth (`report_feeShares`).
-/

namespace Catalist

open Solidity SharePool

namespace Pool

variable {s s' : Pool} {env : Env} {data : OracleReportedData}
  {distribution : StakingRewardsDistribution} {context : OracleReportContext}
  {amounts : PostRebaseAmounts}

/-- The rewards of a report on both layers, if it is profitable. -/
def totalRewards (data : OracleReportedData) (context : OracleReportContext)
    (amounts : PostRebaseAmounts) : Nat :=
  data.postCLBalance + amounts.withdrawals - context.preCLBalance + amounts.elRewards

/-- The divisor is checked not to be negative and not to be zero. -/
theorem feeShares_eq_ok {P S r x : Nat} (h : feeShares distribution P S r = .ok x) :
    r * distribution.totalFee < (P + r) * distribution.precisionPoints ∧
    x = sharesForFee ((P + r) * distribution.precisionPoints) S (r * distribution.totalFee) := by
  simp only [feeShares, bind_eq_ok, checkedAdd_eq_ok, checkedMul_eq_ok, checkedSub_eq_ok,
    checkedDiv_eq_ok] at h
  obtain ⟨_, ⟨_, rfl⟩, _, ⟨_, rfl⟩, _, ⟨_, rfl⟩, _, ⟨_, rfl⟩, _, ⟨hle, rfl⟩, hne, rfl⟩ := h
  exact ⟨by omega, rfl⟩

theorem distributeFee_feeShares {P S r x : Nat} (hfee : 0 < distribution.totalFee)
    (h : s.distributeFee distribution P S r = .ok (s', x)) :
    feeShares distribution P S r = .ok x := by
  unfold distributeFee at h
  simp only [bind_eq_ok, if_pos hfee, pure_eq_ok, Prod.mk.injEq] at h
  obtain ⟨_, _, _, _, minted, hminted, _, _, _, _, _, _, _, _, -, rfl⟩ := h
  exact hminted

/-- The rewards are what the balances have grown by. -/
theorem processRewards_feeShares {preCL P S postCL w e x : Nat} (hfee : 0 < distribution.totalFee)
    (hprofit : preCL < postCL + w)
    (h : s.processRewards distribution preCL P S postCL w e = .ok (s', x)) :
    feeShares distribution P S (postCL + w - preCL + e) = .ok x := by
  simp only [processRewards, bind_eq_ok, checkedAdd_eq_ok] at h
  obtain ⟨_, ⟨_, rfl⟩, h⟩ := h
  simp only [if_pos hprofit, bind_eq_ok, checkedAdd_eq_ok] at h
  obtain ⟨_, ⟨_, rfl⟩, h⟩ := h
  exact distributeFee_feeShares hfee h

/-- The shares of a profitable report are computed from the totals before it. -/
theorem report_mints (h : s.handleOracleReportInternal env data distribution = .ok (s', context, amounts))
    (hfee : 0 < distribution.totalFee)
    (hprofit : context.preCLBalance < data.postCLBalance + amounts.withdrawals) :
    feeShares distribution context.preTotalPooledAce context.preTotalShares
      (totalRewards data context amounts) = .ok context.sharesMintedAsFees := by
  simp only [handleOracleReportInternal, bind_eq_ok, require_eq_ok, pure_eq_ok, Prod.mk.injEq] at h
  obtain ⟨_, _, _, _, P, _, ⟨s₁, preCLBalance⟩, _, _, _, ⟨s₂, aceToLock, _⟩, _, rebase, _, s₃, _,
    s₄, _, ⟨s₅, sharesMintedAsFees⟩, hrewards, P', _, _, _, rfl, rfl, rfl⟩ := h
  exact processRewards_feeShares hfee hprofit hrewards

/-- Nothing but the rewards joins the pool in a profitable report that finalizes nothing. -/
theorem report_postTotalPooledAce
    (h : ReportEffects s s' env data distribution context amounts)
    (hlock : context.aceToLockOnWithdrawalQueue = 0)
    (hprofit : context.preCLBalance < data.postCLBalance + amounts.withdrawals) :
    amounts.postTotalPooledAce = context.preTotalPooledAce + totalRewards data context amounts := by
  obtain ⟨-, -, hpre⟩ := getTotalPooledAce_eq_ok.mp h.pooled
  obtain ⟨-, -, hpost⟩ := getTotalPooledAce_eq_ok.mp h.pooled_after
  have hchange := h.totalPooledAce_eq
  have hpreCL := h.preCLBalance
  have happeared := h.clValidators_le
  have hcast : ((data.clValidators - s.clValidators : ℕ) : ℤ) = data.clValidators - s.clValidators :=
    Nat.cast_sub happeared
  rw [hpost, hpre]
  unfold totalRewards
  zify [hprofit.le] at hpreCL ⊢
  rw [hchange, hlock, hpreCL, hcast]
  ring

/--
**Fee shares are worth at most the fee.** In a profitable report without finalization and burning,
with the total fee `f` of `PP` and rewards `r`, the minted shares are worth at most `r * f / PP`, one
share more would be worth more than that, and the rate of the other shares does not decrease.
-/
theorem report_feeShares
    (h : s.handleOracleReportInternal env data distribution = .ok (s', context, amounts))
    (hlock : context.aceToLockOnWithdrawalQueue = 0) (hburn : context.sharesToBurn = 0)
    (hprofit : context.preCLBalance < data.postCLBalance + amounts.withdrawals)
    (hfee : 0 < distribution.totalFee) (hle : distribution.totalFee ≤ distribution.precisionPoints) :
    let P := context.preTotalPooledAce
    let S := context.preTotalShares
    let P' := amounts.postTotalPooledAce
    let r := totalRewards data context amounts
    let f := distribution.totalFee
    let PP := distribution.precisionPoints
    let x := context.sharesMintedAsFees
    P' = P + r ∧ amounts.postTotalShares = S + x ∧ r * f < P' * PP ∧
      x * P' * PP ≤ r * f * (S + x) ∧ r * f * S < (x + 1) * (P' * PP - r * f) ∧
      P * (S + x) ≤ P' * S := by
  have heffects := reportEffects h
  have hpooled := report_postTotalPooledAce heffects hlock hprofit
  have hshares := heffects.totalShares_eq
  obtain ⟨hdivisor, hx⟩ := feeShares_eq_ok (report_mints h hfee hprofit)
  have hafter : amounts.postTotalShares = context.preTotalShares + context.sharesMintedAsFees := by
    rw [heffects.totalShares_after, heffects.totalShares]
    omega
  simp only
  refine ⟨hpooled, hafter, ?_⟩
  rw [hpooled, hx]
  refine ⟨hdivisor, ?_, lt_sharesForFee_succ_mul hdivisor, ?_⟩
  · rw [Nat.mul_assoc]
    exact sharesForFee_mul_le hdivisor
  · exact priceLe_of_fee (hfee.trans_le hle) hle

/-- One validator has made rewards of 10 ^ 15, and nothing is finalized. The fee is a tenth. -/
def exampleFeeData : OracleReportedData :=
  { exampleData with
    elRewardsVaultBalance := 0
    withdrawalFinalizationBatches := [] }

def exampleFeeReport : Pool × OracleReportContext × PostRebaseAmounts :=
  result (examplePool.handleOracleReportInternal exampleReportEnv exampleFeeData exampleDistribution)
    (by decide +kernel)

theorem report_feeShares_tenth :
    exampleFeeReport.2.1.sharesMintedAsFees * exampleFeeReport.2.2.postTotalPooledAce * 100 ≤
      10 ^ 15 * 10 * (exampleFeeReport.2.1.preTotalShares + exampleFeeReport.2.1.sharesMintedAsFees) := by
  have hreport : examplePool.handleOracleReportInternal exampleReportEnv exampleFeeData
      exampleDistribution = .ok (exampleFeeReport.1, exampleFeeReport.2.1, exampleFeeReport.2.2) :=
    eq_ok_result _ (by decide +kernel)
  have hrewards : totalRewards exampleFeeData exampleFeeReport.2.1 exampleFeeReport.2.2 = 10 ^ 15 := by
    decide +kernel
  obtain ⟨-, -, -, hworth, -⟩ := report_feeShares hreport (by decide +kernel) (by decide +kernel)
    (by decide +kernel) (by decide) (by decide)
  rw [hrewards] at hworth
  exact hworth

end Pool

end Catalist
