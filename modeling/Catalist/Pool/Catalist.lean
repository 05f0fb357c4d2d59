import Catalist.Pool.System

/-!
# The staking pool

`Catalist.sol`: the bootstrap of the initial holder, `submit`, `deposit` and the handling of an
oracle report. `_handleOracleReport` is split into its numbered steps, one definition for each
that changes the storage.
-/

namespace Catalist

open Solidity

/-- What the accounting oracle reports. -/
structure OracleReportedData where
  reportTimestamp : Nat
  timeElapsed : Nat
  clValidators : Nat
  postCLBalance : Nat
  withdrawalVaultBalance : Nat
  elRewardsVaultBalance : Nat
  sharesRequestedToBurn : Nat
  withdrawalFinalizationBatches : List Nat
  simulatedShareRate : Nat
deriving DecidableEq, Repr

/-- What is computed while a report is handled. -/
structure OracleReportContext where
  preCLValidators : Nat
  preCLBalance : Nat
  preTotalPooledAce : Nat
  preTotalShares : Nat
  aceToLockOnWithdrawalQueue : Nat
  sharesToBurnFromWithdrawalQueue : Nat
  simulatedSharesToBurn : Nat
  sharesToBurn : Nat
  sharesMintedAsFees : Nat
deriving DecidableEq, Repr

/-- The values that `handleOracleReport` returns. -/
structure PostRebaseAmounts where
  postTotalPooledAce : Nat
  postTotalShares : Nat
  withdrawals : Nat
  elRewards : Nat
deriving DecidableEq, Repr

/-- The answer of the staking router to `getStakingRewardsDistribution`. -/
structure StakingRewardsDistribution where
  recipients : List Address
  moduleIds : List Nat
  modulesFees : List Nat
  totalFee : Nat
  precisionPoints : Nat
deriving DecidableEq, Repr

namespace Pool

variable (s : Pool)

/-! ## Initialization -/

/-- `_bootstrapInitialHolder` -/
def bootstrapInitialHolder : Call PoolError Pool := do
  ensure (s.balance ≠ 0)
  if s.token.totalShares = 0 then do
    let s := { s with bufferedAce := s.balance }
    let token ← s.token.mintInitialShares s.getTotalPooledAce s.balance
    return { s with token := token }
  else return s

/-- `initialize`: the queue lets the burner burn the shares of finalized requests. -/
def initializePool : Call PoolError Pool := do
  let s ← s.bootstrapInitialHolder
  let token ← s.token.approveInternal s.locator.withdrawalQueue s.locator.burner INFINITE_ALLOWANCE
  return { s with token := token }

/-! ## Deposits of users -/

/-- `_submit`, a payable call: its value joins the balance before the body runs. -/
def submit (env : Env) (blockNumber : Nat) : Call PoolError (Pool × Nat) := do
  let s := { s with balance := s.balance + env.value }
  require (env.value ≠ 0) .zeroDeposit
  let stakeLimit ← s.stakeLimit.consume blockNumber env.value
  let s := { s with stakeLimit := stakeLimit }
  let sharesAmount ← s.token.getSharesByPooledAce s.getTotalPooledAce env.value
  let (token, _) ← s.token.mintShares env.sender sharesAmount
  let bufferedAce ← checkedAdd 256 s.bufferedAce env.value
  let s := { s with token := token, bufferedAce := bufferedAce }
  s.token.emitTransferAfterMintingShares s.getTotalPooledAce sharesAmount
  return (s, sharesAmount)

/-! ## Deposits to the beacon chain -/

/-- `canDeposit` -/
def canDeposit : Bool :=
  !(s.bunkerModeSinceTimestamp < BUNKER_MODE_DISABLED_TIMESTAMP : Bool) && s.token.active

/-- `getDepositableAce` -/
def getDepositableAce : Call PoolError Nat := do
  let withdrawalReserve ← within .queue s.queue.unfinalizedBACE
  return if withdrawalReserve < s.bufferedAce then s.bufferedAce - withdrawalReserve else 0

/-- The update of the storage in `deposit`. -/
def unbuffer (depositsCount : Nat) : Call PoolError (Pool × Nat) := do
  if 0 < depositsCount then do
    let depositsValue ← checkedMul 256 depositsCount DEPOSIT_SIZE
    let bufferedAce ← checkedSub s.bufferedAce depositsValue
    let depositedValidators ← checkedAdd 256 s.depositedValidators depositsCount
    return ({ s with
      bufferedAce := bufferedAce
      depositedValidators := depositedValidators }, depositsValue)
  else return (s, 0)

/--
`deposit`; `getStakingModuleMaxDepositsCount` is the answer of the router for the module.
-/
def deposit (env : Env) (maxDepositsCount : Nat) (getStakingModuleMaxDepositsCount : Nat → Nat) :
    Call PoolError Pool := do
  require (env.sender = s.locator.depositSecurityModule) .appAuthDsmFailed
  require (s.canDeposit = true) .canNotDeposit
  let depositableAce ← s.getDepositableAce
  let depositsCount := min maxDepositsCount (getStakingModuleMaxDepositsCount depositableAce)
  let (s, depositsValue) ← s.unbuffer depositsCount
  -- the value goes to the router
  require (depositsValue ≤ s.balance) .notEnoughBalance
  return { s with balance := s.balance - depositsValue }

/-- `unsafeChangeDepositedValidators`; `canPerform` is the answer of the access control list. -/
def unsafeChangeDepositedValidators (canPerform : Bool) (newDepositedValidators : Nat) :
    Call PoolError Pool := do
  require (canPerform = true) .appAuthFailed
  return { s with depositedValidators := newDepositedValidators }

/-! ## Oracle reports -/

/-- `_processClStateUpdate` (step 1); it returns the balance before the report. -/
def processClStateUpdate (preClValidators postClValidators postClBalance : Nat) :
    Call PoolError (Pool × Nat) := do
  require (postClValidators ≤ s.depositedValidators) .reportedMoreDeposited
  require (preClValidators ≤ postClValidators) .reportedLessValidators
  let clValidators := if preClValidators < postClValidators then postClValidators else s.clValidators
  let appearedValidators := postClValidators - preClValidators
  let appearedBalance ← checkedMul 256 appearedValidators DEPOSIT_SIZE
  let preCLBalance ← checkedAdd 256 s.clBalance appearedBalance
  return ({ s with clValidators := clValidators, clBalance := postClBalance }, preCLBalance)

/-- `_checkAccountingOracleReport` (step 2) -/
def checkAccountingOracleReport (data : OracleReportedData) (preCLBalance preCLValidators : Nat) :
    Call PoolError Unit := do
  let actualSharesToBurn ←
    checkedAdd 256 s.burner.coverSharesBurnRequested s.burner.nonCoverSharesBurnRequested
  s.limits.checkAccountingOracleReport s.withdrawalVaultBalance s.elRewardsVaultBalance
    actualSharesToBurn data.timeElapsed preCLBalance data.postCLBalance data.withdrawalVaultBalance
    data.elRewardsVaultBalance data.sharesRequestedToBurn preCLValidators data.clValidators

/-- `_calculateWithdrawals`: the ace to lock and the shares to burn. -/
def calculateWithdrawals (env : Env) (data : OracleReportedData) : Call PoolError (Nat × Nat) := do
  if s.queue.isPaused env = false then do
    let last ← getIndex data.withdrawalFinalizationBatches
      (data.withdrawalFinalizationBatches.length - 1)
    s.limits.checkWithdrawalQueueOracleReport s.queue last data.reportTimestamp
    within .queue (s.queue.prefinalize data.withdrawalFinalizationBatches data.simulatedShareRate)
  else return (0, 0)

/-- The request of step 3 to the burner. -/
def requestBurnFromQueue (sharesToBurn : Nat) : Call PoolError Pool := do
  if 0 < sharesToBurn then
    s.requestBurnShares s.token.self s.locator.withdrawalQueue sharesToBurn
  else return s

/-- Step 3: nothing is finalized without batches. -/
def prepareWithdrawals (env : Env) (data : OracleReportedData) :
    Call PoolError (Pool × Nat × Nat) := do
  if data.withdrawalFinalizationBatches.length ≠ 0 then do
    let (aceToLock, sharesToBurn) ← s.calculateWithdrawals env data
    let s ← s.requestBurnFromQueue sharesToBurn
    return (s, aceToLock, sharesToBurn)
  else return (s, 0, 0)

/-- The rewards part of `_collectRewardsAndProcessWithdrawals`. -/
def collectELRewards (elRewardsToWithdraw : Nat) : Call PoolError Pool := do
  if 0 < elRewardsToWithdraw then do
    let (s, _) ← s.withdrawRewards elRewardsToWithdraw
    return s
  else return s

/-- The withdrawals part of `_collectRewardsAndProcessWithdrawals`. -/
def collectWithdrawals (withdrawalsToWithdraw : Nat) : Call PoolError Pool := do
  if 0 < withdrawalsToWithdraw then s.withdrawWithdrawals withdrawalsToWithdraw
  else return s

/-- The finalization part of `_collectRewardsAndProcessWithdrawals`. -/
def finalizeWithdrawals (env : Env) (batches : List Nat) (simulatedShareRate aceToLock : Nat) :
    Call PoolError Pool := do
  if 0 < aceToLock then do
    let last ← getIndex batches (batches.length - 1)
    require (aceToLock ≤ s.balance) .notEnoughBalance
    let queue ← within .queue
      (s.queue.finalize { env with sender := s.token.self, value := aceToLock } last simulatedShareRate)
    return { s with balance := s.balance - aceToLock, queue := queue }
  else return s

/-- `_collectRewardsAndProcessWithdrawals` (step 5) -/
def collectRewardsAndProcessWithdrawals (env : Env) (withdrawalsToWithdraw elRewardsToWithdraw : Nat)
    (batches : List Nat) (simulatedShareRate aceToLock : Nat) : Call PoolError Pool := do
  let s ← s.collectELRewards elRewardsToWithdraw
  let s ← s.collectWithdrawals withdrawalsToWithdraw
  let s ← s.finalizeWithdrawals env batches simulatedShareRate aceToLock
  let withRewards ← checkedAdd 256 s.bufferedAce elRewardsToWithdraw
  let withWithdrawals ← checkedAdd 256 withRewards withdrawalsToWithdraw
  let postBufferedAce ← checkedSub withWithdrawals aceToLock
  return { s with bufferedAce := postBufferedAce }

/-- Step 6 -/
def burnRequestedShares (sharesToBurn : Nat) : Call PoolError Pool := do
  if 0 < sharesToBurn then do
    let s ← s.commitSharesToBurn sharesToBurn
    let (token, _) ← s.token.burnShares s.getTotalPooledAce s.locator.burner sharesToBurn
    return { s with token := token }
  else return s

/--
The loop of `_transferModuleRewards`; `totalModuleRewards` is what the modules before were given.
-/
def transferModuleRewards (totalFee totalRewards : Nat) :
    Pool → Nat → List (Address × Nat) → Call PoolError (Pool × Nat)
  | s, totalModuleRewards, [] => return (s, totalModuleRewards)
  | s, totalModuleRewards, (recipient, moduleFee) :: modules => do
    if 0 < moduleFee then do
      let product ← checkedMul 256 totalRewards moduleFee
      let iModuleRewards ← checkedDiv product totalFee
      let token ← s.token.transferSharesInternal s.token.self recipient iModuleRewards
      let s := { s with token := token }
      s.token.emitTransferAfterMintingShares s.getTotalPooledAce iModuleRewards
      let totalModuleRewards ← checkedAdd 256 totalModuleRewards iModuleRewards
      transferModuleRewards totalFee totalRewards s totalModuleRewards modules
    else transferModuleRewards totalFee totalRewards s totalModuleRewards modules

/-- `_transferTreasuryRewards` -/
def transferTreasuryRewards (treasuryReward : Nat) : Call PoolError Pool := do
  let token ← s.token.transferSharesInternal s.token.self s.locator.treasury treasuryReward
  let s := { s with token := token }
  s.token.emitTransferAfterMintingShares s.getTotalPooledAce treasuryReward
  return s

/-- The shares that `_distributeFee` mints. -/
def feeShares (distribution : StakingRewardsDistribution)
    (preTotalPooledAce preTotalShares totalRewards : Nat) : Call PoolError Nat := do
  let totalPooledAceWithRewards ← checkedAdd 256 preTotalPooledAce totalRewards
  let feeOnRewards ← checkedMul 256 totalRewards distribution.totalFee
  let product ← checkedMul 256 feeOnRewards preTotalShares
  let scaled ← checkedMul 256 totalPooledAceWithRewards distribution.precisionPoints
  let divisor ← checkedSub scaled feeOnRewards
  checkedDiv product divisor

/-- `_distributeFee`; it returns the shares that were minted. -/
def distributeFee (distribution : StakingRewardsDistribution)
    (preTotalPooledAce preTotalShares totalRewards : Nat) : Call PoolError (Pool × Nat) := do
  require (distribution.recipients.length = distribution.modulesFees.length) .wrongRecipientsInput
  require (distribution.moduleIds.length = distribution.modulesFees.length) .wrongModuleIdsInput
  if 0 < distribution.totalFee then do
    let sharesMintedAsFees ←
      feeShares distribution preTotalPooledAce preTotalShares totalRewards
    let (token, _) ← s.token.mintShares s.token.self sharesMintedAsFees
    let (s, totalModuleRewards) ← transferModuleRewards distribution.totalFee sharesMintedAsFees
      { s with token := token } 0 (distribution.recipients.zip distribution.modulesFees)
    let treasuryReward ← checkedSub sharesMintedAsFees totalModuleRewards
    let s ← s.transferTreasuryRewards treasuryReward
    return (s, sharesMintedAsFees)
  else return (s, 0)

/-- `_processRewards` (step 7): a fee is taken of positive rewards only. -/
def processRewards (distribution : StakingRewardsDistribution) (preCLBalance preTotalPooledAce
    preTotalShares postCLBalance withdrawnWithdrawals withdrawnElRewards : Nat) :
    Call PoolError (Pool × Nat) := do
  let postCLTotalBalance ← checkedAdd 256 postCLBalance withdrawnWithdrawals
  if preCLBalance < postCLTotalBalance then do
    let totalRewards ← checkedAdd 256 (postCLTotalBalance - preCLBalance) withdrawnElRewards
    s.distributeFee distribution preTotalPooledAce preTotalShares totalRewards
  else return (s, 0)

/-- Step 9: the simulated share rate is only checked if requests were to be finalized. -/
def checkSimulatedShareRate (data : OracleReportedData) (postTotalPooledAce postTotalShares
    aceToLock sharesToBurn simulatedSharesToBurn : Nat) : Call PoolError Unit := do
  if data.withdrawalFinalizationBatches.length ≠ 0 then do
    let sharesBurntDueToWithdrawals ← checkedSub sharesToBurn simulatedSharesToBurn
    s.limits.checkSimulatedShareRate postTotalPooledAce postTotalShares aceToLock
      sharesBurntDueToWithdrawals data.simulatedShareRate
  else return ()

/-- `_handleOracleReport`, with the values that it computed on the way. -/
def handleOracleReportInternal (env : Env) (data : OracleReportedData)
    (distribution : StakingRewardsDistribution) :
    Call PoolError (Pool × OracleReportContext × PostRebaseAmounts) := do
  require (env.sender = s.locator.accountingOracle) .appAuthFailed
  require (data.reportTimestamp ≤ env.timestamp) .invalidReportTimestamp
  let preTotalPooledAce ← s.getTotalPooledAce
  let preTotalShares := s.token.totalShares
  let preCLValidators := s.clValidators
  let (s, preCLBalance) ← s.processClStateUpdate preCLValidators data.clValidators data.postCLBalance
  s.checkAccountingOracleReport data preCLBalance preCLValidators
  let (s, aceToLock, sharesToBurnFromWithdrawalQueue) ← s.prepareWithdrawals env data
  let rebase ← smoothenTokenRebase s.limits.maxPositiveTokenRebase preTotalPooledAce preTotalShares
    preCLBalance data.postCLBalance data.withdrawalVaultBalance data.elRewardsVaultBalance
    data.sharesRequestedToBurn aceToLock sharesToBurnFromWithdrawalQueue
  let s ← s.collectRewardsAndProcessWithdrawals env rebase.withdrawals rebase.elRewards
    data.withdrawalFinalizationBatches data.simulatedShareRate aceToLock
  let s ← s.burnRequestedShares rebase.sharesToBurn
  let (s, sharesMintedAsFees) ← s.processRewards distribution preCLBalance preTotalPooledAce
    preTotalShares data.postCLBalance rebase.withdrawals rebase.elRewards
  let postTotalShares := s.token.totalShares
  let postTotalPooledAce ← s.getTotalPooledAce
  s.checkSimulatedShareRate data postTotalPooledAce postTotalShares aceToLock rebase.sharesToBurn
    rebase.simulatedSharesToBurn
  return (s,
    { preCLValidators := preCLValidators
      preCLBalance := preCLBalance
      preTotalPooledAce := preTotalPooledAce
      preTotalShares := preTotalShares
      aceToLockOnWithdrawalQueue := aceToLock
      sharesToBurnFromWithdrawalQueue := sharesToBurnFromWithdrawalQueue
      simulatedSharesToBurn := rebase.simulatedSharesToBurn
      sharesToBurn := rebase.sharesToBurn
      sharesMintedAsFees := sharesMintedAsFees },
    { postTotalPooledAce := postTotalPooledAce
      postTotalShares := postTotalShares
      withdrawals := rebase.withdrawals
      elRewards := rebase.elRewards })

/-- `handleOracleReport` -/
def handleOracleReport (env : Env) (data : OracleReportedData)
    (distribution : StakingRewardsDistribution) : Call PoolError (Pool × PostRebaseAmounts) := do
  require (s.token.active = true) .contractIsStopped
  let (s, _, amounts) ← s.handleOracleReportInternal env data distribution
  return (s, amounts)

end Pool

end Catalist
