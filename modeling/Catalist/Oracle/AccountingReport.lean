import Catalist.Oracle.AccountingOracle
import Catalist.Oracle.Processing
import Catalist.Pool.Catalist

/-!
# The accounting oracle: the main report

`AccountingOracle.sol`, the part that processes the data of a report: `submitReportData` and what it
calls, with `onOracleReport` of the withdrawal queue and `handleOracleReport` of the pool. The
staking router, the legacy oracle and two checks of the sanity checker are other contracts, with the
state `ρ`; they may revert.
-/

namespace Catalist

open Solidity

/-- `ReportData` -/
structure AccountingReportData where
  consensusVersion : Nat
  refSlot : Nat
  numValidators : Nat
  clBalanceGwei : Nat
  stakingModuleIdsWithNewlyExitedValidators : List Nat
  numExitedValidatorsByStakingModule : List Nat
  withdrawalVaultBalance : Nat
  elRewardsVaultBalance : Nat
  sharesRequestedToBurn : Nat
  withdrawalFinalizationBatches : List Nat
  simulatedShareRate : Nat
  isBunkerMode : Bool
  extraDataFormat : Nat
  extraDataHash : Hash
  extraDataItemsCount : Nat
deriving DecidableEq, Repr

inductive QueueReportError where
  | missingOracleRole (account : Address)
  | invalidReportTimestamp
deriving DecidableEq, Repr

inductive AccountingReportError where
  | accounting (e : AccountingError)
  | invalidExitedValidatorsData
  | unsupportedExtraDataFormat (format : Nat)
  | extraDataItemsCountCannotBeZeroForNonEmptyData
  | extraDataHashCannotBeZeroForNonEmptyData
  | valueDoesNotFitIn16Bits
  /-- the withdrawal queue reverted -/
  | queue (e : QueueReportError)
  /-- the pool reverted -/
  | pool (r : Revert PoolError)
  /-- another contract that was called reverted -/
  | callee
deriving DecidableEq, Repr

/-- The other contracts that are called; `none` is a revert. -/
structure ReportCallees (ρ : Type) where
  checkAccountingExtraDataListItemsCount : Nat → Option Unit
  /-- of the legacy oracle -/
  handleConsensusLayerReport : Nat → Nat → Nat → ρ → Option ρ
  updateExitedValidatorsCountByStakingModule : List Nat → List Nat → ρ → Option (Nat × ρ)
  checkExitedValidatorsRatePerDay : Nat → Option Unit
  getStakingRewardsDistribution : ρ → StakingRewardsDistribution

/-- The context of a call. -/
structure AccountingReportEnv extends AccountingEnv where
  /-- `address(this)` -/
  self : Address
  /-- `keccak256(abi.encode(data))` -/
  hashOf : AccountingReportData → Hash
  /-- `ORACLE_ROLE` of the withdrawal queue -/
  hasOracleRole : Address → Bool

/-- `onOracleReport` of the withdrawal queue. -/
def Pool.onOracleReport (s : Pool) (env : Env) (hasOracleRole : Address → Bool)
    (isBunkerModeNow : Bool) (bunkerStartTimestamp currentReportTimestamp : Nat) :
    Call QueueReportError Pool := do
  require (hasOracleRole env.sender = true) (.missingOracleRole env.sender)
  require (bunkerStartTimestamp < env.timestamp) .invalidReportTimestamp
  require (currentReportTimestamp < env.timestamp) .invalidReportTimestamp
  let s : Pool := { s with queue := { s.queue with lastReportTimestamp := currentReportTimestamp } }
  let isBunkerModeWasSetBefore : Bool :=
    s.bunkerModeSinceTimestamp < BUNKER_MODE_DISABLED_TIMESTAMP
  if isBunkerModeNow ≠ isBunkerModeWasSetBefore then
    return { s with
      bunkerModeSinceTimestamp :=
        if isBunkerModeNow = true then bunkerStartTimestamp else BUNKER_MODE_DISABLED_TIMESTAMP }
  else return s

namespace AccountingOracle

variable {ρ : Type} (callees : ReportCallees ρ)

/-- A call of another contract. -/
def external {α : Type} (x : Option α) : Call AccountingReportError α :=
  match x with
  | some a => .ok a
  | none => .error (.error .callee)

/-- A call of the pool. -/
def externalPool {α : Type} (x : Call PoolError α) : Call AccountingReportError α :=
  match x with
  | .ok a => .ok a
  | .error r => .error (.error (.pool r))

/-- The checks of the extra data at the start of `_handleConsensusReportData`. -/
def checkReportExtraData (data : AccountingReportData) : Call AccountingReportError Unit := do
  if data.extraDataFormat = EXTRA_DATA_FORMAT_EMPTY then do
    require (data.extraDataHash = ZERO_HASH)
      (.accounting (.unexpectedExtraDataHash ZERO_HASH data.extraDataHash))
    require (data.extraDataItemsCount = 0)
      (.accounting (.unexpectedExtraDataItemsCount 0 data.extraDataItemsCount))
  else do
    require (data.extraDataFormat = EXTRA_DATA_FORMAT_LIST)
      (.unsupportedExtraDataFormat data.extraDataFormat)
    require (data.extraDataItemsCount ≠ 0) .extraDataItemsCountCannotBeZeroForNonEmptyData
    require (data.extraDataHash ≠ ZERO_HASH) .extraDataHashCannotBeZeroForNonEmptyData

/-- The rate that `_processStakingRouterExitedValidatorsByModule` computes. -/
def exitedValidatorsRatePerDay (secondsPerSlot newlyExitedValidatorsCount slotsElapsed : Nat) :
    Call AccountingReportError Nat := do
  let perDay ← checkedMul 256 newlyExitedValidatorsCount 86400
  let secondsElapsed ← checkedMul 256 secondsPerSlot slotsElapsed
  checkedDiv perDay secondsElapsed

/-- `_processStakingRouterExitedValidatorsByModule` -/
def processStakingRouterExitedValidatorsByModule (secondsPerSlot : Nat)
    (stakingModuleIds numExitedValidatorsByStakingModule : List Nat) (slotsElapsed : Nat)
    (router : ρ) : Call AccountingReportError ρ := do
  require (stakingModuleIds.length = numExitedValidatorsByStakingModule.length)
    .invalidExitedValidatorsData
  if stakingModuleIds.length = 0 then return router
  else do
    require (stakingModuleIds.IsChain (· < ·)) .invalidExitedValidatorsData
    require (∀ n ∈ numExitedValidatorsByStakingModule, n ≠ 0) .invalidExitedValidatorsData
    let (newlyExitedValidatorsCount, router) ←
      external (callees.updateExitedValidatorsCountByStakingModule stakingModuleIds
        numExitedValidatorsByStakingModule router)
    let rate ← exitedValidatorsRatePerDay secondsPerSlot newlyExitedValidatorsCount slotsElapsed
    external (callees.checkExitedValidatorsRatePerDay rate)
    return router

/-- `GENESIS_TIME + slot * SECONDS_PER_SLOT` -/
def timestampAtSlot (p : BaseOracle) (slot : Nat) : Call AccountingReportError Nat := do
  let elapsed ← checkedMul 256 slot p.secondsPerSlot
  checkedAdd 256 p.genesisTime elapsed

/-- `toUint16` -/
def toUint16 (value : Nat) : Call AccountingReportError Nat := do
  require (value < 2 ^ 16) .valueDoesNotFitIn16Bits
  return value

/-- The processing state that `_handleConsensusReportData` stores. -/
def newProcessingState (data : AccountingReportData) :
    Call AccountingReportError ExtraDataProcessingState := do
  let refSlot ← within (.accounting ∘ .oracle) (toUint64 data.refSlot)
  let dataFormat ← toUint16 data.extraDataFormat
  let itemsCount ← toUint16 data.extraDataItemsCount
  return {
    refSlot := refSlot
    dataFormat := dataFormat
    submitted := false
    itemsCount := itemsCount
    itemsProcessed := 0
    lastSortingKey := 0
    dataHash := data.extraDataHash }

variable (o : AccountingOracle)

/-- The calls of `_handleConsensusReportData` to the withdrawal queue and the pool. -/
def reportToPool (data : AccountingReportData) (prevRefSlot slotsElapsed : Nat)
    (env : AccountingReportEnv) (distribution : StakingRewardsDistribution) (pool : Pool) :
    Call AccountingReportError Pool := do
  let nested : Env := { env.toEnv with sender := env.self, value := 0 }
  let bunkerStartTimestamp ← timestampAtSlot o.base prevRefSlot
  let currentReportTimestamp ← timestampAtSlot o.base data.refSlot
  let pool ← within .queue (pool.onOracleReport nested env.hasOracleRole data.isBunkerMode
    bunkerStartTimestamp currentReportTimestamp)
  let reportTimestamp ← timestampAtSlot o.base data.refSlot
  let timeElapsed ← checkedMul 256 slotsElapsed o.base.secondsPerSlot
  let postCLBalance ← checkedMul 256 data.clBalanceGwei (10 ^ 9)
  let (pool, _) ← externalPool (pool.handleOracleReport nested
    { reportTimestamp := reportTimestamp
      timeElapsed := timeElapsed
      clValidators := data.numValidators
      postCLBalance := postCLBalance
      withdrawalVaultBalance := data.withdrawalVaultBalance
      elRewardsVaultBalance := data.elRewardsVaultBalance
      sharesRequestedToBurn := data.sharesRequestedToBurn
      withdrawalFinalizationBatches := data.withdrawalFinalizationBatches
      simulatedShareRate := data.simulatedShareRate } distribution)
  return pool

/-- `_handleConsensusReportData` -/
def handleConsensusReportData (data : AccountingReportData) (prevRefSlot : Nat)
    (env : AccountingReportEnv) (router : ρ) (pool : Pool) :
    Call AccountingReportError (AccountingOracle × ρ × Pool) := do
  checkReportExtraData data
  external (callees.checkAccountingExtraDataListItemsCount data.extraDataItemsCount)
  let clBalance ← checkedMul 256 data.clBalanceGwei (10 ^ 9)
  let router ← external
    (callees.handleConsensusLayerReport data.refSlot clBalance data.numValidators router)
  let slotsElapsed ← checkedSub data.refSlot prevRefSlot
  let router ← processStakingRouterExitedValidatorsByModule callees o.base.secondsPerSlot
    data.stakingModuleIdsWithNewlyExitedValidators data.numExitedValidatorsByStakingModule
    slotsElapsed router
  let pool ← o.reportToPool data prevRefSlot slotsElapsed env
    (callees.getStakingRewardsDistribution router) pool
  let extraData ← newProcessingState data
  return ({ o with extraData := extraData }, router, pool)

/-- `submitReportData` -/
def submitReportData (data : AccountingReportData) (contractVersion : Nat)
    (env : AccountingReportEnv) (router : ρ) (pool : Pool) :
    Call AccountingReportError (AccountingOracle × ρ × Pool) := do
  within .accounting (checkMsgSenderIsAllowedToSubmitData env.toAccountingEnv)
  within (.accounting ∘ .oracle) (o.base.checkContractVersion contractVersion)
  within (.accounting ∘ .oracle)
    (o.base.checkConsensusData data.refSlot data.consensusVersion (env.hashOf data))
  let (base, prevRefSlot) ← within (.accounting ∘ .oracle) (o.base.startProcessing env.toEnv)
  handleConsensusReportData callees { o with base := base } data prevRefSlot env router pool

end AccountingOracle

end Catalist
