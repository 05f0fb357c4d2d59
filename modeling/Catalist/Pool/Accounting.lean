import Catalist.Pool.Steps
import Mathlib.Tactic.Ring
import Mathlib.Tactic.Linarith

/-!
# The accounting of the pool

In every run the buffered ace is there, and no more validators are counted than were deposited. An
accepted report changes the total pooled ace by the rewards of the validators and by the ace that
moved, no more and no less.
-/

namespace Catalist

open Solidity Ledger Transition

/-- Every call but the one that overwrites the number of deposited validators. -/
def Action.Safe : Action → Prop
  | .unsafeChangeDepositedValidators _ _ => False
  | _ => True

namespace Pool

variable {s s' : Pool} {env : Env} {data : OracleReportedData}
  {distribution : StakingRewardsDistribution} {context : OracleReportContext}
  {amounts : PostRebaseAmounts}

/-- The storage agrees with what was deposited and received. -/
structure Backed (s : Pool) : Prop where
  clValidators_le : s.clValidators ≤ s.depositedValidators
  bufferedAce_le : s.bufferedAce ≤ s.balance

theorem backed_initial (h : Initial s) : Backed s := by
  obtain ⟨s₀, hfresh, h⟩ := h
  obtain ⟨_, _, _, _, _, rfl⟩ := initializePool_ok_cases hfresh.totalShares h
  exact {
    clValidators_le := by
      show s₀.clValidators ≤ _
      rw [hfresh.clValidators]
      exact Nat.zero_le _
    bufferedAce_le := Nat.le_refl _ }

theorem Backed.of_sameAccounts (hb : Backed s) (h : SameAccounts s s') : Backed s' where
  clValidators_le := by
    rw [h.clValidators, h.depositedValidators]
    exact hb.clValidators_le
  bufferedAce_le := by
    rw [h.bufferedAce]
    exact hb.bufferedAce_le.trans h.balance

theorem Backed.submit {blockNumber n : Nat} (hb : Backed s)
    (h : s.submit env blockNumber = .ok (s', n)) : Backed s' := by
  obtain ⟨_, _, _, _, _, _, _, _, _, rfl⟩ := submit_ok_cases h
  exact { hb with bufferedAce_le := Nat.add_le_add_right hb.bufferedAce_le _ }

theorem Backed.deposit {maxDepositsCount : Nat} {getStakingModuleMaxDepositsCount : Nat → Nat}
    (hb : Backed s)
    (h : s.deposit env maxDepositsCount getStakingModuleMaxDepositsCount = .ok s') : Backed s' := by
  obtain ⟨depositsCount, _, _, rfl⟩ := deposit_ok_cases h
  exact {
    clValidators_le := Nat.le_add_right_of_le hb.clValidators_le
    bufferedAce_le := Nat.sub_le_sub_right hb.bufferedAce_le _ }

theorem Backed.report (hb : Backed s) (h : ReportEffects s s' env data distribution context amounts) :
    Backed s' where
  clValidators_le := by
    rw [h.clValidators, h.depositedValidators]
    exact h.reported_le
  bufferedAce_le := by
    have hle := hb.bufferedAce_le
    rw [h.bufferedAce, h.balance]
    omega

theorem Backed.step (hb : Backed s) (h : Step (fun _ action => action.Safe) s s') :
    Backed s' := by
  cases h with
  | other h => exact hb.of_sameAccounts h.toSameAccounts
  | call action hsafe h =>
    cases hsource : action.source s with
    | some source => exact hb.of_sameAccounts (action.shifted hsource h).toSameAccounts
    | none =>
      cases action with
      | submit env blockNumber =>
        obtain ⟨⟨s₁, n⟩, hrun, rfl⟩ := map_eq_ok.mp h
        exact hb.submit hrun
      | deposit env maxDepositsCount getStakingModuleMaxDepositsCount => exact hb.deposit h
      | unsafeChangeDepositedValidators canPerform newDepositedValidators => cases hsafe
      | handleOracleReport env data distribution =>
        obtain ⟨⟨s₁, amounts⟩, hrun, rfl⟩ := map_eq_ok.mp h
        obtain ⟨_, context, hinternal⟩ := handleOracleReport_eq_ok.mp hrun
        exact hb.report (reportEffects hinternal)
      | token op caller => cases hsource
      | requestBurnShares caller fromAddr sharesAmount => cases hsource
      | requestWithdrawals env amounts owner => cases hsource
      | requestWithdrawalsWbACE env amounts owner => cases hsource

theorem backed_of_reachable (h : Reachable Initial (Step fun _ action => action.Safe) s) :
    Backed s :=
  h.invariant (fun _ hinit => backed_initial hinit) fun _ _ hb hs => hb.step hs

/-! ## What a report does to the totals -/

/-- The totals and the balances before and after an accepted report. -/
structure ReportAccounted (s s' : Pool) (data : OracleReportedData) (context : OracleReportContext)
    (amounts : PostRebaseAmounts) : Prop where
  /-- the change of the total pooled ace -/
  totalPooledAce : (s'.totalPooledAce : ℤ) = s.totalPooledAce
    + (data.postCLBalance - (s.clBalance + (data.clValidators - s.clValidators) * DEPOSIT_SIZE))
    + amounts.withdrawals + amounts.elRewards - context.aceToLockOnWithdrawalQueue
  totalShares : s'.token.totalShares + context.sharesToBurn
    = s.token.totalShares + context.sharesMintedAsFees
  /-- The total pooled ace is what the contract computes and returns. -/
  pooled : s'.getTotalPooledAce = .ok s'.totalPooledAce
  postTotalPooledAce : amounts.postTotalPooledAce = s'.totalPooledAce
  postTotalShares : amounts.postTotalShares = s'.token.totalShares
  appeared : s.clValidators ≤ data.clValidators
  /-- where the ace went -/
  balance : s'.balance + context.aceToLockOnWithdrawalQueue
    = s.balance + amounts.withdrawals + amounts.elRewards
  withdrawalVaultBalance :
    s'.withdrawalVaultBalance + amounts.withdrawals = s.withdrawalVaultBalance
  elRewardsVaultBalance : s'.elRewardsVaultBalance + amounts.elRewards = s.elRewardsVaultBalance
  queueBalance : s'.queue.balance = s.queue.balance + context.aceToLockOnWithdrawalQueue
  lockedAceAmount :
    s'.queue.lockedAceAmount = s.queue.lockedAceAmount + context.aceToLockOnWithdrawalQueue
  backed : Backed s'

theorem ReportEffects.totalPooledAce_eq
    (h : ReportEffects s s' env data distribution context amounts) :
    (s'.totalPooledAce : ℤ) = s.totalPooledAce
      + (data.postCLBalance - (s.clBalance + (data.clValidators - s.clValidators) * DEPOSIT_SIZE))
      + amounts.withdrawals + amounts.elRewards - context.aceToLockOnWithdrawalQueue := by
  have hreported := h.reported_le
  have happeared := h.clValidators_le
  have hlock := h.lock_le_buffered
  unfold totalPooledAce
  rw [h.bufferedAce, h.clBalance, h.depositedValidators, h.clValidators]
  push_cast [Nat.cast_sub hlock, Nat.cast_sub hreported,
    Nat.cast_sub (happeared.trans hreported)]
  ring

theorem ReportEffects.totalShares_eq
    (h : ReportEffects s s' env data distribution context amounts) :
    s'.token.totalShares + context.sharesToBurn
      = s.token.totalShares + context.sharesMintedAsFees := by
  obtain ⟨token, hburnt, hpaid⟩ := h.token
  have hminted := hpaid.totalShares
  have hleft := hburnt.totalShares
  omega

theorem ReportEffects.queue_funded
    (h : ReportEffects s s' env data distribution context amounts) :
    s'.queue.balance = s.queue.balance + context.aceToLockOnWithdrawalQueue ∧
    s'.queue.lockedAceAmount
      = s.queue.lockedAceAmount + context.aceToLockOnWithdrawalQueue := by
  rcases h.finalized with ⟨hzero, hqueue⟩ | ⟨-, hfinalized⟩
  · rw [hqueue, hzero]
    exact ⟨rfl, rfl⟩
  · exact ⟨hfinalized.balance, hfinalized.lockedAceAmount⟩

theorem ReportEffects.accounted (hb : Backed s)
    (h : ReportEffects s s' env data distribution context amounts) :
    ReportAccounted s s' data context amounts := by
  obtain ⟨hqueueBalance, hlocked⟩ := h.queue_funded
  obtain ⟨hle, hbound, hpost⟩ := getTotalPooledAce_eq_ok.mp h.pooled_after
  exact {
    totalPooledAce := h.totalPooledAce_eq
    totalShares := h.totalShares_eq
    pooled := getTotalPooledAce_eq_ok.mpr ⟨hle, hbound, rfl⟩
    postTotalPooledAce := hpost
    postTotalShares := h.totalShares_after
    appeared := h.clValidators_le
    balance := by
      have hlock := h.lock_le_balance
      rw [h.balance]
      omega
    withdrawalVaultBalance := by
      rw [h.withdrawalVaultBalance]
      exact Nat.sub_add_cancel h.withdrawals_le
    elRewardsVaultBalance := by
      rw [h.elRewardsVaultBalance]
      exact Nat.sub_add_cancel h.elRewards_le
    queueBalance := hqueueBalance
    lockedAceAmount := hlocked
    backed := hb.report h }

/--
**The accounting of every run**: the counters and the balance fit together in every reachable
state, and every report that is accepted there is accounted for exactly.
-/
theorem report_accounting (h : Reachable Initial (Step fun _ action => action.Safe) s) :
    s.clValidators ≤ s.depositedValidators ∧ s.bufferedAce ≤ s.balance ∧
    ∀ env data distribution s' amounts,
      s.handleOracleReport env data distribution = .ok (s', amounts) →
      ∃ context,
        s.handleOracleReportInternal env data distribution = .ok (s', context, amounts) ∧
        ReportAccounted s s' data context amounts := by
  have hb := backed_of_reachable h
  refine ⟨hb.clValidators_le, hb.bufferedAce_le, ?_⟩
  intro env data distribution s' amounts hreport
  obtain ⟨_, context, hinternal⟩ := handleOracleReport_eq_ok.mp hreport
  exact ⟨context, hinternal, (reportEffects hinternal).accounted hb⟩

/-- A pool with 64 ace for the initial holder. -/
def exampleGenesis : Pool where
  locator := {
    accountingOracle := 10
    burner := 11
    depositSecurityModule := 12
    treasury := 13
    wbACE := 14
    withdrawalQueue := 15
    burner_ne_withdrawalQueue := by decide
    wbACE_ne_withdrawalQueue := by decide }
  token := { self := 1, shares := fun _ => 0, allowances := fun _ _ => 0, totalShares := 0,
             active := true }
  bufferedAce := 0
  depositedValidators := 0
  clBalance := 0
  clValidators := 0
  totalELRewardsCollected := 0
  stakeLimit := { prevStakeBlockNumber := 1, prevStakeLimit := 0, maxStakeLimitGrowthBlocks := 0,
                  maxStakeLimit := 0 }
  balance := 64 * 10 ^ 18
  elRewardsVaultBalance := 10 ^ 15
  withdrawalVaultBalance := 0
  burner := { coverSharesBurnRequested := 0, nonCoverSharesBurnRequested := 0,
              totalCoverSharesBurnt := 0, totalNonCoverSharesBurnt := 0,
              requestBurnSharesRole := fun a => a = 1 }
  queue := WithdrawalQueue.initializeQueue
    { queue := fun _ => ⟨0, 0, 0, 0, false, 0⟩, lastRequestId := 0, lastFinalizedRequestId := 0,
      checkpoints := fun _ => ⟨0, 0⟩, lastCheckpointIndex := 0, lockedAceAmount := 0,
      requestsByOwner := fun _ => ∅, lastReportTimestamp := 0, tokenApprovals := fun _ => 0,
      operatorApprovals := fun _ _ => false, resumeSinceTimestamp := 0,
      hasRole := fun role a => role = .finalize ∧ a = 1, balance := 0 } ⟨0, 0, 1, Nat.one_pos⟩
  bunkerModeSinceTimestamp := BUNKER_MODE_DISABLED_TIMESTAMP
  wbACE := { balances := fun _ => 0, allowances := fun _ _ => 0, totalSupply := 0 }
  limits := { churnValidatorsPerDayLimit := 10, oneOffCLBalanceDecreaseBPLimit := 500,
              annualBalanceIncreaseBPLimit := 1000, simulatedShareRateDeviationBPLimit := 50,
              requestTimestampMargin := 0, maxPositiveTokenRebase := 750000 }

theorem exampleSubmitTime_pos : 0 < 10 := by decide

theorem exampleRequestTime_pos : 0 < 20 := by decide

/-- A deposit, a withdrawal request and one validator. -/
def exampleActions : List Action :=
  [.submit ⟨100, 36 * 10 ^ 18, 10, exampleSubmitTime_pos⟩ 5,
   .token (.approve 15 (10 ^ 19)) 100,
   .requestWithdrawals ⟨100, 0, 20, exampleRequestTime_pos⟩ [10 ^ 19] 0,
   .deposit ⟨12, 0, 30, by decide⟩ 1 fun _ => 2]

/-- The validator appears with rewards, and the request is finalized. -/
def exampleData : OracleReportedData where
  reportTimestamp := 40
  timeElapsed := 86400
  clValidators := 1
  postCLBalance := 32 * 10 ^ 18 + 10 ^ 15
  withdrawalVaultBalance := 0
  elRewardsVaultBalance := 10 ^ 15
  sharesRequestedToBurn := 0
  withdrawalFinalizationBatches := [1]
  simulatedShareRate := 10 ^ 27

def exampleDistribution : StakingRewardsDistribution where
  recipients := [200]
  moduleIds := [1]
  modulesFees := [5]
  totalFee := 10
  precisionPoints := 100

def exampleStart : Pool := result exampleGenesis.initializePool (by decide +kernel)

theorem fresh_exampleGenesis : Fresh exampleGenesis where
  shares _ := rfl
  totalShares := rfl
  bufferedAce := rfl
  depositedValidators := rfl
  clBalance := rfl
  clValidators := rfl
  queue := ⟨_, _, ⟨rfl, rfl, rfl, rfl, fun _ => rfl⟩, rfl⟩
  self_ne := by decide

theorem initial_exampleStart : Initial exampleStart :=
  ⟨exampleGenesis, fresh_exampleGenesis, eq_ok_result _ (by decide +kernel)⟩

def examplePool : Pool := result (exampleStart.runAll exampleActions) (by decide +kernel)

theorem safe_exampleActions : ∀ action ∈ exampleActions, action.Safe := by
  simp [exampleActions, Action.Safe]

theorem reachable_examplePool : Reachable Initial (Step fun _ action => action.Safe) examplePool :=
  reachable_runAll (.init initial_exampleStart) (fun action ha _ _ => safe_exampleActions action ha)
    (eq_ok_result _ (by decide +kernel))

def exampleReportEnv : Env := ⟨10, 0, 50, by decide⟩

def exampleReport : Pool × PostRebaseAmounts :=
  result (examplePool.handleOracleReport exampleReportEnv exampleData exampleDistribution)
    (by decide +kernel)

/-- A report that counts a validator, takes rewards, finalizes a request and mints a fee. -/
theorem report_accounting_one_validator :
    examplePool.clValidators ≤ examplePool.depositedValidators ∧
    examplePool.bufferedAce ≤ examplePool.balance ∧
    ∃ context, ReportAccounted examplePool exampleReport.1 exampleData context exampleReport.2 := by
  obtain ⟨hle, hbuffered, hreports⟩ := report_accounting reachable_examplePool
  obtain ⟨context, _, haccounted⟩ := hreports exampleReportEnv exampleData exampleDistribution
    exampleReport.1 exampleReport.2 (eq_ok_result _ (by decide +kernel))
  exact ⟨hle, hbuffered, context, haccounted⟩

end Pool

end Catalist
