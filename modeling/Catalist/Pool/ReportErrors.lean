import Catalist.Lib.Outcome
import Catalist.Pool.Catalist

/-!
# How the handling of a report can revert

The pool compares the time of a report with the current one in one place, at the start of
`_handleOracleReport`. No other function that a report goes through reverts with the error of this
check, so a report whose time has come never meets it.
-/

namespace Catalist

open Solidity

/-- The error of the check of the report's time. -/
def PoolError.timed : PoolError → Bool
  | .invalidReportTimestamp => true
  | _ => false

/-- A revert of anything but the check of the report's time. -/
def Untimed : Revert PoolError → Prop
  | .panic _ => True
  | .error e => e.timed = false

theorem untimed_panic (p : Panic) : Untimed (.panic p) := trivial

theorem ensures_untimed {c : Prop} [Decidable c] {e : PoolError} (h : e.timed = false) :
    Ensures Untimed (require c e) fun _ => True :=
  Ensures.mono (ensures_require h) fun _ _ => trivial

/-- The errors of the withdrawal queue are its own. -/
theorem ensures_queue {α : Type} (x : Call QueueError α) :
    Ensures Untimed (within .queue x) fun _ => True where
  of_ok _ := trivial
  of_error {r} h := by
    cases x with
    | ok a => cases h
    | error e =>
      cases h
      cases e with
      | panic p => exact untimed_panic p
      | error e => exact rfl

/-! ## The token -/

namespace BACE

variable (t : BACE) {pooled : Call PoolError Nat} (a sender recipient owner spender : Address)
  (n : Nat)

/-- The rate can only panic. -/
theorem ensures_getPooledAceByShares {allowed : Revert PoolError → Prop}
    (hpanic : ∀ p, allowed (.panic p)) (hpooled : Ensures allowed pooled fun _ => True) :
    Ensures allowed (t.getPooledAceByShares pooled n) fun _ => True := by
  refine hpooled.bind fun _ _ => ?_
  refine (ensures_mul hpanic).bind fun _ _ => ?_
  exact ensures_div hpanic

theorem ensures_emitTransfer (hpooled : Ensures Untimed pooled fun _ => True) :
    Ensures Untimed (t.emitTransferAfterMintingShares pooled n) fun _ => True :=
  (t.ensures_getPooledAceByShares n untimed_panic hpooled).bind fun _ _ => ensures_pure trivial

theorem ensures_spendAllowance : Ensures Untimed (t.spendAllowance owner spender n) fun _ => True := by
  unfold spendAllowance
  simp only
  split
  · refine (ensures_untimed rfl).bind fun _ _ => ?_
    refine (ensures_untimed rfl).bind fun _ _ => ?_
    exact (ensures_untimed rfl).bind fun _ _ => ensures_pure trivial
  · exact ensures_pure trivial

theorem ensures_transferSharesInternal :
    Ensures Untimed (t.transferSharesInternal sender recipient n) fun _ => True := by
  refine (ensures_untimed rfl).bind fun _ _ => ?_
  refine (ensures_untimed rfl).bind fun _ _ => ?_
  refine (ensures_untimed rfl).bind fun _ _ => ?_
  refine (ensures_untimed rfl).bind fun _ _ => ?_
  refine (ensures_untimed rfl).bind fun _ _ => ?_
  refine (ensures_sub untimed_panic).bind fun _ _ => ?_
  exact (ensures_add untimed_panic).bind fun _ _ => ensures_pure trivial

theorem ensures_transferSharesFrom (hpooled : Ensures Untimed pooled fun _ => True) :
    Ensures Untimed (t.transferSharesFrom pooled spender sender recipient n) fun _ => True := by
  refine (t.ensures_getPooledAceByShares n untimed_panic hpooled).bind fun tokens _ => ?_
  refine (t.ensures_spendAllowance sender spender tokens).bind fun t₁ _ => ?_
  exact (t₁.ensures_transferSharesInternal sender recipient n).bind fun _ _ => ensures_pure trivial

theorem ensures_mintShares : Ensures Untimed (t.mintShares a n) fun _ => True := by
  refine (ensures_untimed rfl).bind fun _ _ => ?_
  refine (ensures_add untimed_panic).bind fun _ _ => ?_
  exact (ensures_add untimed_panic).bind fun _ _ => ensures_pure trivial

theorem ensures_burnShares (hpooled : Ensures Untimed pooled fun _ => True) :
    Ensures Untimed (t.burnShares pooled a n) fun _ => True := by
  refine (ensures_untimed rfl).bind fun _ _ => ?_
  refine (ensures_untimed rfl).bind fun _ _ => ?_
  refine (t.ensures_getPooledAceByShares n untimed_panic hpooled).bind fun _ _ => ?_
  refine (ensures_sub untimed_panic).bind fun _ _ => ?_
  refine (ensures_sub untimed_panic).bind fun _ _ => ?_
  exact (ensures_getPooledAceByShares _ n untimed_panic hpooled).bind fun _ _ => ensures_pure trivial

end BACE

/-! ## The sanity checker -/

namespace TokenRebaseLimiterData

variable (l : TokenRebaseLimiterData)

theorem ensures_decreaseAce (n : Nat) : Ensures Untimed (l.decreaseAce n) fun _ => True := by
  unfold decreaseAce
  split
  · exact ensures_pure trivial
  · refine (ensures_untimed rfl).bind fun _ _ => ?_
    exact (ensures_sub untimed_panic).bind fun _ _ => ensures_pure trivial

theorem ensures_increaseAce (n : Nat) : Ensures Untimed (l.increaseAce n) fun _ => True := by
  unfold increaseAce
  split
  · exact ensures_pure trivial
  · refine (ensures_add untimed_panic).bind fun _ _ => ?_
    refine (ensures_assert untimed_panic).bind fun _ _ => ?_
    exact (ensures_sub untimed_panic).bind fun _ _ => ensures_pure trivial

theorem ensures_getSharesToBurnLimit : Ensures Untimed l.getSharesToBurnLimit fun _ => True := by
  unfold getSharesToBurnLimit
  split
  · exact ensures_pure trivial
  · split
    · exact ensures_pure trivial
    · refine (ensures_add untimed_panic).bind fun _ _ => ?_
      refine (ensures_mul untimed_panic).bind fun _ _ => ?_
      refine (ensures_div untimed_panic).bind fun _ _ => ?_
      refine (ensures_sub untimed_panic).bind fun _ _ => ?_
      exact (ensures_mul untimed_panic).bind fun _ _ => ensures_div untimed_panic

theorem ensures_applyCLBalanceChange (preCLBalance postCLBalance : Nat) :
    Ensures Untimed (l.applyCLBalanceChange preCLBalance postCLBalance) fun _ => True := by
  unfold applyCLBalanceChange
  split
  · exact l.ensures_decreaseAce _
  · exact (l.ensures_increaseAce _).bind fun _ _ => ensures_pure trivial

end TokenRebaseLimiterData

theorem ensures_initLimiterState (R T S : Nat) :
    Ensures Untimed (initLimiterState R T S) fun _ => True := by
  refine (ensures_untimed rfl).bind fun _ _ => ?_
  refine (ensures_untimed rfl).bind fun _ _ => ?_
  generalize (if T = 0 then UNLIMITED_REBASE else R) = rebaseLimit
  show Ensures Untimed (if rebaseLimit = UNLIMITED_REBASE then _ else _) _
  split
  · exact ensures_pure trivial
  · refine (ensures_mul untimed_panic).bind fun _ _ => ?_
    refine (ensures_div untimed_panic).bind fun _ _ => ?_
    exact (ensures_add untimed_panic).bind fun _ _ => ensures_pure trivial

theorem ensures_smoothenTokenRebase (R T S pre post withdrawal el shares toLock toBurn : Nat) :
    Ensures Untimed (smoothenTokenRebase R T S pre post withdrawal el shares toLock toBurn)
      fun _ => True := by
  refine (ensures_initLimiterState R T S).bind fun l _ => ?_
  refine (l.ensures_applyCLBalanceChange pre post).bind fun l _ => ?_
  refine (l.ensures_increaseAce withdrawal).bind fun ⟨l, _⟩ _ => ?_
  refine (l.ensures_increaseAce el).bind fun ⟨l, _⟩ _ => ?_
  refine l.ensures_getSharesToBurnLimit.bind fun _ _ => ?_
  refine (l.ensures_decreaseAce toLock).bind fun l _ => ?_
  refine l.ensures_getSharesToBurnLimit.bind fun _ _ => ?_
  exact (ensures_add untimed_panic).bind fun _ _ => ensures_pure trivial

namespace LimitsList

variable (limits : LimitsList)

theorem ensures_checkOneOffCLBalanceDecrease (pre post : Nat) :
    Ensures Untimed (limits.checkOneOffCLBalanceDecrease pre post) fun _ => True := by
  unfold checkOneOffCLBalanceDecrease
  split
  · exact ensures_pure trivial
  · refine (ensures_sub untimed_panic).bind fun _ _ => ?_
    refine (ensures_mul untimed_panic).bind fun _ _ => ?_
    exact (ensures_div untimed_panic).bind fun _ _ => ensures_untimed rfl

theorem ensures_checkAnnualBalancesIncrease (pre post timeElapsed : Nat) :
    Ensures Untimed (limits.checkAnnualBalancesIncrease pre post timeElapsed) fun _ => True := by
  unfold checkAnnualBalancesIncrease
  generalize (if pre = 0 then DEFAULT_CL_BALANCE else pre) = preCLBalance
  show Ensures Untimed (if post ≤ preCLBalance then _ else _) _
  split
  · exact ensures_pure trivial
  · refine (ensures_sub untimed_panic).bind fun _ _ => ?_
    refine (ensures_mul untimed_panic).bind fun _ _ => ?_
    refine (ensures_div untimed_panic).bind fun _ _ => ?_
    exact (ensures_div untimed_panic).bind fun _ _ => ensures_untimed rfl

theorem ensures_checkAppearedValidatorsChurnLimit (appearedValidators timeElapsed : Nat) :
    Ensures Untimed (limits.checkAppearedValidatorsChurnLimit appearedValidators timeElapsed)
      fun _ => True := by
  refine (ensures_mul untimed_panic).bind fun _ _ => ?_
  exact (ensures_div untimed_panic).bind fun _ _ => ensures_untimed rfl

theorem ensures_checkAccountingOracleReport (withdrawal el shares timeElapsed pre post w e b
    preValidators postValidators : Nat) :
    Ensures Untimed (limits.checkAccountingOracleReport withdrawal el shares timeElapsed pre post w e
      b preValidators postValidators) fun _ => True := by
  refine (ensures_untimed rfl).bind fun _ _ => ?_
  refine (ensures_untimed rfl).bind fun _ _ => ?_
  refine (ensures_untimed rfl).bind fun _ _ => ?_
  refine (ensures_add untimed_panic).bind fun _ _ => ?_
  refine (limits.ensures_checkOneOffCLBalanceDecrease _ _).bind fun _ _ => ?_
  refine (limits.ensures_checkAnnualBalancesIncrease _ _ _).bind fun _ _ => ?_
  split
  · refine (ensures_sub untimed_panic).bind fun _ _ => ?_
    exact limits.ensures_checkAppearedValidatorsChurnLimit _ _
  · exact ensures_pure trivial

theorem ensures_checkWithdrawalQueueOracleReport (q : WithdrawalQueue) (last time : Nat) :
    Ensures Untimed (limits.checkWithdrawalQueueOracleReport q last time) fun _ => True := by
  refine (ensures_queue _).bind fun _ _ => ?_
  exact (ensures_add untimed_panic).bind fun _ _ => ensures_untimed rfl

theorem ensures_checkSimulatedShareRate (pooled shares locked burnt rate : Nat) :
    Ensures Untimed (limits.checkSimulatedShareRate pooled shares locked burnt rate)
      fun _ => True := by
  refine (ensures_add untimed_panic).bind fun _ _ => ?_
  refine (ensures_add untimed_panic).bind fun _ _ => ?_
  refine (ensures_mul untimed_panic).bind fun _ _ => ?_
  refine (ensures_div untimed_panic).bind fun _ _ => ?_
  refine (ensures_untimed rfl).bind fun _ _ => ?_
  refine (ensures_mul untimed_panic).bind fun _ _ => ?_
  exact (ensures_div untimed_panic).bind fun _ _ => ensures_untimed rfl

end LimitsList

/-! ## The pool -/

namespace Pool

variable (s : Pool) (env : Env) (data : OracleReportedData) (distribution : StakingRewardsDistribution)

theorem ensures_getTotalPooledAce {allowed : Revert PoolError → Prop}
    (hpanic : ∀ p, allowed (.panic p)) : Ensures allowed s.getTotalPooledAce fun _ => True := by
  have htransient : Ensures allowed s.getTransientBalance fun _ => True :=
    (ensures_assert hpanic).bind fun _ _ => ensures_mul hpanic
  refine (ensures_add hpanic).bind fun _ _ => ?_
  exact htransient.bind fun _ _ => ensures_add hpanic

theorem ensures_requestBurnFromQueue (n : Nat) :
    Ensures Untimed (s.requestBurnFromQueue n) fun _ => True := by
  unfold requestBurnFromQueue
  split
  · refine (ensures_untimed rfl).bind fun _ _ => ?_
    refine Ensures.bind (s.token.ensures_transferSharesFrom _ _ _ _
      (s.ensures_getTotalPooledAce untimed_panic)) fun _ _ => ?_
    refine (ensures_untimed rfl).bind fun _ _ => ?_
    exact (ensures_add untimed_panic).bind fun _ _ => ensures_pure trivial
  · exact ensures_pure trivial

theorem ensures_commitCoverShares (n : Nat) :
    Ensures Untimed (s.commitCoverShares n) fun _ => True := by
  unfold commitCoverShares
  split
  · refine (ensures_add untimed_panic).bind fun _ _ => ?_
    refine Ensures.bind (s.token.ensures_getPooledAceByShares _ untimed_panic
      (s.ensures_getTotalPooledAce untimed_panic))
      fun _ _ => ?_
    exact (ensures_sub untimed_panic).bind fun _ _ => ensures_pure trivial
  · exact ensures_pure trivial

theorem ensures_commitNonCoverShares (n burnt : Nat) :
    Ensures Untimed (s.commitNonCoverShares n burnt) fun _ => True := by
  unfold commitNonCoverShares
  split
  · refine (ensures_add untimed_panic).bind fun _ _ => ?_
    refine Ensures.bind (s.token.ensures_getPooledAceByShares _ untimed_panic
      (s.ensures_getTotalPooledAce untimed_panic))
      fun _ _ => ?_
    refine (ensures_sub untimed_panic).bind fun _ _ => ?_
    exact (ensures_add untimed_panic).bind fun _ _ => ensures_pure trivial
  · exact ensures_pure trivial

theorem ensures_commitSharesToBurn (n : Nat) :
    Ensures Untimed (s.commitSharesToBurn n) fun _ => True := by
  unfold commitSharesToBurn
  split
  · exact ensures_pure trivial
  · refine (ensures_add untimed_panic).bind fun _ _ => ?_
    refine (ensures_untimed rfl).bind fun _ _ => ?_
    refine (s.ensures_commitCoverShares n).bind fun committed _ => ?_
    obtain ⟨s₁, burnt⟩ := committed
    refine (s₁.ensures_commitNonCoverShares n burnt).bind fun _ _ => ?_
    exact (ensures_assert untimed_panic).bind fun _ _ => ensures_pure trivial

theorem ensures_processClStateUpdate (pre post balance : Nat) :
    Ensures Untimed (s.processClStateUpdate pre post balance) fun _ => True := by
  refine (ensures_untimed rfl).bind fun _ _ => ?_
  refine (ensures_untimed rfl).bind fun _ _ => ?_
  refine (ensures_mul untimed_panic).bind fun _ _ => ?_
  exact (ensures_add untimed_panic).bind fun _ _ => ensures_pure trivial

theorem ensures_checkAccountingOracleReport (preCLBalance preCLValidators : Nat) :
    Ensures Untimed (s.checkAccountingOracleReport data preCLBalance preCLValidators)
      fun _ => True := by
  refine (ensures_add untimed_panic).bind fun _ _ => ?_
  exact s.limits.ensures_checkAccountingOracleReport _ _ _ _ _ _ _ _ _ _ _

theorem ensures_prepareWithdrawals : Ensures Untimed (s.prepareWithdrawals env data) fun _ => True := by
  have hcalculate : Ensures Untimed (s.calculateWithdrawals env data) fun _ => True := by
    unfold calculateWithdrawals
    split
    · refine (ensures_getIndex untimed_panic).bind fun last _ => ?_
      refine (s.limits.ensures_checkWithdrawalQueueOracleReport _ _ _).bind fun _ _ => ?_
      exact ensures_queue _
    · exact ensures_pure trivial
  unfold prepareWithdrawals
  split
  · refine hcalculate.bind fun ⟨_, sharesToBurn⟩ _ => ?_
    exact (s.ensures_requestBurnFromQueue sharesToBurn).bind fun _ _ => ensures_pure trivial
  · exact ensures_pure trivial

theorem ensures_collectELRewards (n : Nat) :
    Ensures Untimed (s.collectELRewards n) fun _ => True := by
  have hreceive : ∀ (s : Pool) (value : Nat),
      Ensures Untimed (s.receiveELRewards value) fun _ => True := fun s value =>
    (ensures_add untimed_panic).bind fun _ _ => ensures_pure trivial
  have hwithdraw : Ensures Untimed (s.withdrawRewards n) fun _ => True := by
    unfold withdrawRewards
    generalize (if n < s.elRewardsVaultBalance then n else s.elRewardsVaultBalance) = amount
    show Ensures Untimed (if 0 < amount then _ else _) _
    split
    · exact (hreceive _ _).bind fun _ _ => ensures_pure trivial
    · exact ensures_pure trivial
  unfold collectELRewards
  split
  · exact hwithdraw.bind fun _ _ => ensures_pure trivial
  · exact ensures_pure trivial

theorem ensures_collectWithdrawals (n : Nat) :
    Ensures Untimed (s.collectWithdrawals n) fun _ => True := by
  unfold collectWithdrawals
  split
  · refine (ensures_untimed rfl).bind fun _ _ => ?_
    exact (ensures_untimed rfl).bind fun _ _ => ensures_pure trivial
  · exact ensures_pure trivial

theorem ensures_finalizeWithdrawals (batches : List Nat) (rate aceToLock : Nat) :
    Ensures Untimed (s.finalizeWithdrawals env batches rate aceToLock) fun _ => True := by
  unfold finalizeWithdrawals
  split
  · refine (ensures_getIndex untimed_panic).bind fun _ _ => ?_
    refine (ensures_untimed rfl).bind fun _ _ => ?_
    exact (ensures_queue _).bind fun _ _ => ensures_pure trivial
  · exact ensures_pure trivial

theorem ensures_collectRewardsAndProcessWithdrawals (withdrawals el : Nat) (batches : List Nat)
    (rate aceToLock : Nat) :
    Ensures Untimed (s.collectRewardsAndProcessWithdrawals env withdrawals el batches rate aceToLock)
      fun _ => True := by
  refine (s.ensures_collectELRewards el).bind fun s _ => ?_
  refine (s.ensures_collectWithdrawals withdrawals).bind fun s _ => ?_
  refine (s.ensures_finalizeWithdrawals env batches rate aceToLock).bind fun s _ => ?_
  refine (ensures_add untimed_panic).bind fun _ _ => ?_
  refine (ensures_add untimed_panic).bind fun _ _ => ?_
  exact (ensures_sub untimed_panic).bind fun _ _ => ensures_pure trivial

theorem ensures_burnRequestedShares (n : Nat) :
    Ensures Untimed (s.burnRequestedShares n) fun _ => True := by
  unfold burnRequestedShares
  split
  · refine (s.ensures_commitSharesToBurn n).bind fun s _ => ?_
    exact Ensures.bind (s.token.ensures_burnShares _ _ (s.ensures_getTotalPooledAce untimed_panic))
      fun _ _ => ensures_pure trivial
  · exact ensures_pure trivial

theorem ensures_transferModuleRewards (totalFee totalRewards totalModuleRewards : Nat)
    (modules : List (Address × Nat)) :
    Ensures Untimed (transferModuleRewards totalFee totalRewards s totalModuleRewards modules)
      fun _ => True := by
  induction modules generalizing s totalModuleRewards with
  | nil => exact ensures_pure trivial
  | cons m modules ih =>
    obtain ⟨recipient, moduleFee⟩ := m
    unfold transferModuleRewards
    split
    · refine (ensures_mul untimed_panic).bind fun _ _ => ?_
      refine (ensures_div untimed_panic).bind fun rewards _ => ?_
      refine (s.token.ensures_transferSharesInternal _ _ _).bind fun t _ => ?_
      refine (t.ensures_emitTransfer _ (ensures_getTotalPooledAce _ untimed_panic)).bind fun _ _ => ?_
      exact (ensures_add untimed_panic).bind fun _ _ => ih _ _
    · exact ih _ _

theorem ensures_distributeFee (preTotalPooledAce preTotalShares totalRewards : Nat) :
    Ensures Untimed (s.distributeFee distribution preTotalPooledAce preTotalShares totalRewards)
      fun _ => True := by
  have hshares : Ensures Untimed
      (feeShares distribution preTotalPooledAce preTotalShares totalRewards) fun _ => True := by
    refine (ensures_add untimed_panic).bind fun _ _ => ?_
    refine (ensures_mul untimed_panic).bind fun _ _ => ?_
    refine (ensures_mul untimed_panic).bind fun _ _ => ?_
    refine (ensures_mul untimed_panic).bind fun _ _ => ?_
    exact (ensures_sub untimed_panic).bind fun _ _ => ensures_div untimed_panic
  have htreasury : ∀ (s : Pool) (reward : Nat),
      Ensures Untimed (s.transferTreasuryRewards reward) fun _ => True := fun s reward => by
    refine (s.token.ensures_transferSharesInternal _ _ _).bind fun t _ => ?_
    refine (t.ensures_emitTransfer _ (ensures_getTotalPooledAce _ untimed_panic)).bind fun _ _ => ?_
    exact ensures_pure trivial
  refine (ensures_untimed rfl).bind fun _ _ => ?_
  refine (ensures_untimed rfl).bind fun _ _ => ?_
  split
  · refine hshares.bind fun shares _ => ?_
    refine (s.token.ensures_mintShares _ _).bind fun ⟨t, _⟩ _ => ?_
    refine (ensures_transferModuleRewards _ _ _ _ _).bind fun ⟨s, _⟩ _ => ?_
    refine (ensures_sub untimed_panic).bind fun _ _ => ?_
    exact (htreasury _ _).bind fun _ _ => ensures_pure trivial
  · exact ensures_pure trivial

theorem ensures_processRewards (pre T S post withdrawals el : Nat) :
    Ensures Untimed (s.processRewards distribution pre T S post withdrawals el) fun _ => True := by
  refine (ensures_add untimed_panic).bind fun _ _ => ?_
  split
  · refine (ensures_add untimed_panic).bind fun _ _ => ?_
    exact s.ensures_distributeFee distribution T S _
  · exact ensures_pure trivial

theorem ensures_checkSimulatedShareRate (pooled shares locked burnt simulated : Nat) :
    Ensures Untimed (s.checkSimulatedShareRate data pooled shares locked burnt simulated)
      fun _ => True := by
  unfold checkSimulatedShareRate
  split
  · refine (ensures_sub untimed_panic).bind fun _ _ => ?_
    exact s.limits.ensures_checkSimulatedShareRate _ _ _ _ _
  · exact ensures_pure trivial

theorem ensures_handleOracleReportInternal (htime : data.reportTimestamp ≤ env.timestamp) :
    Ensures Untimed (s.handleOracleReportInternal env data distribution) fun _ => True := by
  refine (ensures_untimed rfl).bind fun _ _ => ?_
  rw [require_of htime, ok_bind]
  refine (s.ensures_getTotalPooledAce untimed_panic).bind fun T _ => ?_
  refine (s.ensures_processClStateUpdate _ _ _).bind fun ⟨s, preCLBalance⟩ _ => ?_
  refine (s.ensures_checkAccountingOracleReport data _ _).bind fun _ _ => ?_
  refine (s.ensures_prepareWithdrawals env data).bind fun ⟨s, aceToLock, toBurn⟩ _ => ?_
  refine (ensures_smoothenTokenRebase _ _ _ _ _ _ _ _ _ _).bind fun rebase _ => ?_
  refine (s.ensures_collectRewardsAndProcessWithdrawals env _ _ _ _ _).bind fun s _ => ?_
  refine (s.ensures_burnRequestedShares _).bind fun s _ => ?_
  refine (s.ensures_processRewards distribution _ _ _ _ _ _).bind fun ⟨s, fees⟩ _ => ?_
  refine (s.ensures_getTotalPooledAce untimed_panic).bind fun _ _ => ?_
  exact (s.ensures_checkSimulatedShareRate data _ _ _ _ _).bind fun _ _ => ensures_pure trivial

/-- A report whose time has come passes the check of its time. -/
theorem ensures_handleOracleReport (htime : data.reportTimestamp ≤ env.timestamp) :
    Ensures Untimed (s.handleOracleReport env data distribution) fun _ => True := by
  refine (ensures_untimed rfl).bind fun _ _ => ?_
  exact (s.ensures_handleOracleReportInternal env data distribution htime).bind
    fun _ _ => ensures_pure trivial

end Pool

end Catalist
