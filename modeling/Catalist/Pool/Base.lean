import Catalist.Evm
import Catalist.Lib.Checked
import Catalist.WithdrawalQueue.Base

/-!
# The staking pool: errors and constants

The contracts of the staking pool call each other: the token and the pool are one contract
(`BACE.sol`, `Catalist.sol`), which works with the burner, the vaults, the sanity checker and the
withdrawal queue. A revert of any of them reverts the whole call, so they share one error type.

`SafeMath` of the older compiler reverts with a message where the newer one panics; both are
written as the panics of checked arithmetic.
-/

namespace Catalist

open Solidity

inductive PoolError where
  -- BACE
  | contractIsStopped
  | contractIsActive
  | approveFromZeroAddr
  | approveToZeroAddr
  | allowanceExceeded
  | allowanceBelowZero
  | transferFromZeroAddr
  | transferToZeroAddr
  | transferToBACEContract
  | balanceExceeded
  | mintToZeroAddr
  | burnFromZeroAddr
  -- Catalist
  | appAuthFailed
  | appAuthDsmFailed
  | canNotDeposit
  | zeroDeposit
  | stakingPaused
  | stakeLimit
  | notInitialized
  | zeroMaxStakeLimit
  | tooLargeMaxStakeLimit
  | tooLargeLimitIncrease
  | tooSmallLimitIncrease
  | invalidReportTimestamp
  | reportedMoreDeposited
  | reportedLessValidators
  | wrongRecipientsInput
  | wrongModuleIdsInput
  /-- a value transfer that exceeds the balance of the calling contract -/
  | notEnoughBalance
  -- PositiveTokenRebaseLimiter
  | tooLowTokenRebaseLimit
  | tooHighTokenRebaseLimit
  | negativeTotalPooledAce
  -- OracleReportSanityChecker
  | incorrectWithdrawalsVaultBalance (actualWithdrawalVaultBalance : Nat)
  | incorrectELRewardsVaultBalance (actualELRewardsVaultBalance : Nat)
  | incorrectSharesRequestedToBurn (actualSharesToBurn : Nat)
  | incorrectCLBalanceDecrease (oneOffCLBalanceDecreaseBP : Nat)
  | incorrectCLBalanceIncrease (annualBalanceDiff : Nat)
  | incorrectAppearedValidators (churnLimit : Nat)
  | incorrectRequestFinalization (requestCreationBlock : Nat)
  | actualShareRateIsZero
  | incorrectSimulatedShareRate (simulatedShareRate actualShareRate : Nat)
  -- Burner
  | zeroBurnAmount
  | burnAmountExceedsActual (requestedAmount actualAmount : Nat)
  | missingRequestBurnSharesRole (account : Address)
  | missingRequestBurnMyBACERole (account : Address)
  -- vaults
  | notEnoughAce (requested balance : Nat)
  | zeroAmount
  -- WbACE
  | cantWrapZeroBACE
  | zeroAmountUnwrapNotAllowed
  | transferAmountExceedsBalance
  | transferAmountExceedsAllowance
  | burnAmountExceedsBalance
  -- WithdrawalQueue
  | requestAmountTooSmall (amountOfBACE : Nat)
  | requestAmountTooLarge (amountOfBACE : Nat)
  | queue (e : QueueError)
deriving DecidableEq, Repr

end Catalist
