import Catalist.Pool.RebaseLimiter
import Catalist.WithdrawalQueue.Base

/-!
# Sanity checks of an oracle report

The checks of `OracleReportSanityChecker.sol` that an accounting report passes through, with the
limits that they read. The view of the withdrawal queue that one of them needs, `_getStatus`, is
here too.
-/

namespace Catalist

open Solidity

def MAX_BASIS_POINTS : Nat := 10000

def SHARE_RATE_PRECISION_E27 : Nat := 10 ^ 27

/-- An hour. -/
def DEFAULT_TIME_ELAPSED : Nat := 60 * 60

/-- 1 gwei -/
def DEFAULT_CL_BALANCE : Nat := 10 ^ 9

def SECONDS_PER_DAY : Nat := 24 * 60 * 60

/-- The limits for accounting reports. -/
structure LimitsList where
  churnValidatorsPerDayLimit : Nat
  oneOffCLBalanceDecreaseBPLimit : Nat
  annualBalanceIncreaseBPLimit : Nat
  simulatedShareRateDeviationBPLimit : Nat
  requestTimestampMargin : Nat
  maxPositiveTokenRebase : Nat
deriving DecidableEq, Repr

/-- The values that `_updateLimits` lets through. -/
structure LimitsList.Admitted (limits : LimitsList) : Prop where
  churn : limits.churnValidatorsPerDayLimit < 2 ^ 16
  decrease : limits.oneOffCLBalanceDecreaseBPLimit ≤ MAX_BASIS_POINTS
  increase : limits.annualBalanceIncreaseBPLimit ≤ MAX_BASIS_POINTS
  deviation : limits.simulatedShareRateDeviationBPLimit ≤ MAX_BASIS_POINTS
  margin : limits.requestTimestampMargin < 2 ^ 64
  rebase_pos : 1 ≤ limits.maxPositiveTokenRebase
  rebase : limits.maxPositiveTokenRebase < 2 ^ 64

structure WithdrawalRequestStatus where
  amountOfBACE : Nat
  amountOfShares : Nat
  owner : Address
  timestamp : Nat
  isFinalized : Bool
  isClaimed : Bool
deriving DecidableEq, Repr

/-- `_getStatus` -/
def WithdrawalQueue.getStatus (q : WithdrawalQueue) (requestId : Nat) :
    Call QueueError WithdrawalRequestStatus := do
  require (requestId ≠ 0 ∧ requestId ≤ q.lastRequestId) (.invalidRequestId requestId)
  let request := q.queue requestId
  let previousRequest := q.queue (requestId - 1)
  let amountOfBACE ← checkedSub request.cumulativeBACE previousRequest.cumulativeBACE
  let amountOfShares ← checkedSub request.cumulativeShares previousRequest.cumulativeShares
  return {
    amountOfBACE := amountOfBACE
    amountOfShares := amountOfShares
    owner := request.owner
    timestamp := request.timestamp
    isFinalized := requestId ≤ q.lastFinalizedRequestId
    isClaimed := request.claimed }

namespace LimitsList

variable (limits : LimitsList)

/-- `_checkOneOffCLBalanceDecrease` -/
def checkOneOffCLBalanceDecrease (preCLBalance unifiedPostCLBalance : Nat) :
    Call PoolError Unit := do
  if preCLBalance ≤ unifiedPostCLBalance then return ()
  else do
    let decrease ← checkedSub preCLBalance unifiedPostCLBalance
    let scaled ← checkedMul 256 MAX_BASIS_POINTS decrease
    let oneOffCLBalanceDecreaseBP ← checkedDiv scaled preCLBalance
    require (oneOffCLBalanceDecreaseBP ≤ limits.oneOffCLBalanceDecreaseBPLimit)
      (.incorrectCLBalanceDecrease oneOffCLBalanceDecreaseBP)

/-- `_checkAnnualBalancesIncrease` -/
def checkAnnualBalancesIncrease (preCLBalance postCLBalance timeElapsed : Nat) :
    Call PoolError Unit := do
  let preCLBalance := if preCLBalance = 0 then DEFAULT_CL_BALANCE else preCLBalance
  if postCLBalance ≤ preCLBalance then return ()
  else do
    let timeElapsed := if timeElapsed = 0 then DEFAULT_TIME_ELAPSED else timeElapsed
    let balanceIncrease ← checkedSub postCLBalance preCLBalance
    let scaled ← checkedMul 256 (365 * SECONDS_PER_DAY * MAX_BASIS_POINTS) balanceIncrease
    let relative ← checkedDiv scaled preCLBalance
    let annualBalanceIncrease ← checkedDiv relative timeElapsed
    require (annualBalanceIncrease ≤ limits.annualBalanceIncreaseBPLimit)
      (.incorrectCLBalanceIncrease annualBalanceIncrease)

/-- `_checkAppearedValidatorsChurnLimit` -/
def checkAppearedValidatorsChurnLimit (appearedValidators timeElapsed : Nat) :
    Call PoolError Unit := do
  let timeElapsed := if timeElapsed = 0 then DEFAULT_TIME_ELAPSED else timeElapsed
  let scaled ← checkedMul 256 limits.churnValidatorsPerDayLimit timeElapsed
  let churnLimit ← checkedDiv scaled SECONDS_PER_DAY
  require (appearedValidators ≤ churnLimit) (.incorrectAppearedValidators appearedValidators)

/--
`checkAccountingOracleReport`; the actual values are the balances of the vaults and the shares
that the burner was requested to burn.
-/
def checkAccountingOracleReport (actualWithdrawalVaultBalance actualELRewardsVaultBalance
    actualSharesToBurn timeElapsed preCLBalance postCLBalance withdrawalVaultBalance
    elRewardsVaultBalance sharesRequestedToBurn preCLValidators postCLValidators : Nat) :
    Call PoolError Unit := do
  require (withdrawalVaultBalance ≤ actualWithdrawalVaultBalance)
    (.incorrectWithdrawalsVaultBalance actualWithdrawalVaultBalance)
  require (elRewardsVaultBalance ≤ actualELRewardsVaultBalance)
    (.incorrectELRewardsVaultBalance actualELRewardsVaultBalance)
  require (sharesRequestedToBurn ≤ actualSharesToBurn)
    (.incorrectSharesRequestedToBurn actualSharesToBurn)
  let unifiedPostCLBalance ← checkedAdd 256 postCLBalance withdrawalVaultBalance
  limits.checkOneOffCLBalanceDecrease preCLBalance unifiedPostCLBalance
  limits.checkAnnualBalancesIncrease preCLBalance postCLBalance timeElapsed
  if preCLValidators < postCLValidators then do
    let appearedValidators ← checkedSub postCLValidators preCLValidators
    limits.checkAppearedValidatorsChurnLimit appearedValidators timeElapsed
  else return ()

/-- `checkWithdrawalQueueOracleReport` -/
def checkWithdrawalQueueOracleReport (q : WithdrawalQueue)
    (lastFinalizableRequestId reportTimestamp : Nat) : Call PoolError Unit := do
  let status ← within .queue (q.getStatus lastFinalizableRequestId)
  let earliest ← checkedAdd 256 status.timestamp limits.requestTimestampMargin
  require (earliest ≤ reportTimestamp) (.incorrectRequestFinalization status.timestamp)

/-- `checkSimulatedShareRate` -/
def checkSimulatedShareRate (postTotalPooledAce postTotalShares aceLockedOnWithdrawalQueue
    sharesBurntDueToWithdrawals simulatedShareRate : Nat) : Call PoolError Unit := do
  let noWithdrawalsPostTotalPooledAce ←
    checkedAdd 256 postTotalPooledAce aceLockedOnWithdrawalQueue
  let noWithdrawalsPostTotalShares ← checkedAdd 256 postTotalShares sharesBurntDueToWithdrawals
  let scaled ← checkedMul 256 noWithdrawalsPostTotalPooledAce SHARE_RATE_PRECISION_E27
  let actualShareRate ← checkedDiv scaled noWithdrawalsPostTotalShares
  require (actualShareRate ≠ 0) .actualShareRateIsZero
  -- `Math256.absDiff`
  let simulatedShareDiff := max actualShareRate simulatedShareRate
    - min actualShareRate simulatedShareRate
  let scaledDiff ← checkedMul 256 MAX_BASIS_POINTS simulatedShareDiff
  let simulatedShareDeviation ← checkedDiv scaledDiff actualShareRate
  require (simulatedShareDeviation ≤ limits.simulatedShareRateDeviationBPLimit)
    (.incorrectSimulatedShareRate simulatedShareRate actualShareRate)

/-- An accepted report claims at most what the vaults hold. -/
theorem checkAccountingOracleReport_ok_cases
    {actualWithdrawal actualEl actualShares timeElapsed pre post withdrawal el shares preValidators
      postValidators : Nat}
    (h : limits.checkAccountingOracleReport actualWithdrawal actualEl actualShares timeElapsed pre
      post withdrawal el shares preValidators postValidators = .ok ()) :
    withdrawal ≤ actualWithdrawal ∧ el ≤ actualEl ∧ shares ≤ actualShares := by
  simp only [checkAccountingOracleReport, bind_eq_ok, require_eq_ok] at h
  obtain ⟨_, hwithdrawal, _, hel, _, hshares, _⟩ := h
  exact ⟨hwithdrawal, hel, hshares⟩

end LimitsList

end Catalist
