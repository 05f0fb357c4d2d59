import Catalist.Evm
import Catalist.Registry.SigningKeys

/-!
# The registry of node operators

`NodeOperatorsRegistry.sol` without the functions for keys, which are in `Catalist.Registry.Keys`.
An operator has three packed words of counters, and the registry keeps a summary of some of them
over all operators. The distribution of rewards is in `Catalist.Registry.RewardsDistribution`, the
upgrade from version 1 in `Catalist.Registry.Upgrade`. Left out are the events.

`SafeMath` checks its arithmetic; a plain `+` of this compiler version does not, and is
`uncheckedAdd` here. A plain `-` always follows an assertion or a comparison that makes it exact.
-/

namespace Catalist

open Solidity ByteBuffer

/-- The roles that the functions check. -/
inductive RegistryRole where
  | manageNodeOperator
  | stakingRouter
deriving DecidableEq, Repr

/-- What a call of the registry can read from other contracts. -/
structure RegistryEnv extends Env where
  /-- The answers of the access control list. -/
  canPerform : Address → RegistryRole → Bool
  /-- `getLocator().catalist()` -/
  catalist : Address

/-- Node operator parameters and internal state. -/
structure NodeOperator where
  active : Bool
  rewardAddress : Address
  name : Bytes
  signingKeysStats : Packed
  stuckPenaltyStats : Packed
  targetValidatorsStats : Packed
deriving DecidableEq, Repr

structure NodeOperatorsRegistry where
  operators : Nat → NodeOperator
  summarySigningKeysStats : Packed
  totalOperatorsCount : Nat
  activeOperatorsCount : Nat
  keysOpIndex : Nat
  stuckPenaltyDelay : Nat
  owners : Address → Bool
  /-- The storage of the keys, under `SIGNING_KEYS_MAPPING_NAME`. -/
  signingKeys : SigningKeys.Storage

/-- `a + b` of unsigned integers, without a check. -/
def uncheckedAdd (a b : Nat) : Nat := (a + b) % 2 ^ 256

theorem uncheckedAdd_of_lt {a b : Nat} (h : a + b < 2 ^ 256) : uncheckedAdd a b = a + b :=
  Nat.mod_eq_of_lt h

/-- `Math256.absDiff` -/
def absDiff (a b : Nat) : Nat := if b < a then a - b else b - a

namespace NodeOperatorsRegistry

/-! ## Constants -/

def MAX_NODE_OPERATORS_COUNT : Nat := 200

def MAX_NODE_OPERATOR_NAME_LENGTH : Nat := 255

/-- 365 days -/
def MAX_STUCK_PENALTY_DELAY : Nat := 365 * 24 * 60 * 60

def TOTAL_VETTED_KEYS_COUNT_OFFSET : Fin 4 := 0

def TOTAL_EXITED_KEYS_COUNT_OFFSET : Fin 4 := 1

def TOTAL_KEYS_COUNT_OFFSET : Fin 4 := 2

def TOTAL_DEPOSITED_KEYS_COUNT_OFFSET : Fin 4 := 3

def IS_TARGET_LIMIT_ACTIVE_OFFSET : Fin 4 := 0

def TARGET_VALIDATORS_COUNT_OFFSET : Fin 4 := 1

def MAX_VALIDATORS_COUNT_OFFSET : Fin 4 := 2

def STUCK_VALIDATORS_COUNT_OFFSET : Fin 4 := 0

def REFUNDED_VALIDATORS_COUNT_OFFSET : Fin 4 := 1

def STUCK_PENALTY_END_TIMESTAMP_OFFSET : Fin 4 := 2

def SUMMARY_MAX_VALIDATORS_COUNT_OFFSET : Fin 4 := 0

def SUMMARY_EXITED_KEYS_COUNT_OFFSET : Fin 4 := 1

def SUMMARY_TOTAL_KEYS_COUNT_OFFSET : Fin 4 := 2

def SUMMARY_DEPOSITED_KEYS_COUNT_OFFSET : Fin 4 := 3

variable (s : NodeOperatorsRegistry)

/-! ## Reading and writing -/

def saveSummarySigningKeysStats (val : Packed) : NodeOperatorsRegistry :=
  { s with summarySigningKeysStats := val }

def saveOperatorTargetValidatorsStats (nodeOperatorId : Nat) (val : Packed) :
    NodeOperatorsRegistry :=
  { s with
    operators := Function.update s.operators nodeOperatorId
      { s.operators nodeOperatorId with targetValidatorsStats := val } }

def saveOperatorStuckPenaltyStats (nodeOperatorId : Nat) (val : Packed) : NodeOperatorsRegistry :=
  { s with
    operators := Function.update s.operators nodeOperatorId
      { s.operators nodeOperatorId with stuckPenaltyStats := val } }

def saveOperatorSigningKeysStats (nodeOperatorId : Nat) (val : Packed) : NodeOperatorsRegistry :=
  { s with
    operators := Function.update s.operators nodeOperatorId
      { s.operators nodeOperatorId with signingKeysStats := val } }

def increaseValidatorsKeysNonce : NodeOperatorsRegistry :=
  { s with keysOpIndex := uncheckedAdd s.keysOpIndex 1 }

def getNonce : Nat := s.keysOpIndex

/-! ## Guards -/

/-- The modifier `onlyOwner`. -/
def onlyOwner (env : RegistryEnv) : Call RegistryError Unit :=
  require (s.owners env.sender = true) .notOwner

/-- `_auth` -/
def auth (env : RegistryEnv) (role : RegistryRole) : Call RegistryError Unit :=
  require (env.canPerform env.sender role = true) .appAuthFailed

/-- `_isActiveOperator` -/
def isActiveOperator (nodeOperatorId : Nat) : Call RegistryError Unit :=
  require ((s.operators nodeOperatorId).active = true) .notActive

/-- `_onlyExistedNodeOperator` -/
def onlyExistedNodeOperator (nodeOperatorId : Nat) : Call RegistryError Unit :=
  require (nodeOperatorId < s.totalOperatorsCount) .outOfRange

/-- `_onlyValidNodeOperatorName` -/
def onlyValidNodeOperatorName (name : Bytes) : Call RegistryError Unit :=
  require (0 < name.length ∧ name.length ≤ MAX_NODE_OPERATOR_NAME_LENGTH) .wrongNameLength

/-- `_onlyNonZeroAddress` -/
def onlyNonZeroAddress (a : Address) : Call RegistryError Unit := require (a ≠ 0) .zeroAddress

/-- `_onlyValidRewardAddress` -/
def onlyValidRewardAddress (env : RegistryEnv) (rewardAddress : Address) :
    Call RegistryError Unit := do
  onlyNonZeroAddress rewardAddress
  require (rewardAddress ≠ env.catalist) .catalistRewardAddress

/-! ## Initialization and owners -/

/-- `_setStuckPenaltyDelay` -/
def setStuckPenaltyDelayInternal (delay : Nat) : Call RegistryError NodeOperatorsRegistry := do
  require (delay ≤ MAX_STUCK_PENALTY_DELAY) .outOfRange
  return { s with stuckPenaltyDelay := delay }

def setStuckPenaltyDelay (env : RegistryEnv) (delay : Nat) :
    Call RegistryError NodeOperatorsRegistry := do
  auth env .manageNodeOperator
  s.setStuckPenaltyDelayInternal delay

/-- `initialize`, without the approval that it gives to the burner, which can only revert it. -/
def initializeRegistry (env : RegistryEnv) (locator : Address) (stuckPenaltyDelay : Nat) :
    Call RegistryError NodeOperatorsRegistry := do
  let s := { s with owners := Function.update s.owners env.sender true }
  onlyNonZeroAddress locator
  s.setStuckPenaltyDelayInternal stuckPenaltyDelay

def setOwner (env : RegistryEnv) (adr : Address) (status : Bool) :
    Call RegistryError NodeOperatorsRegistry := do
  s.onlyOwner env
  return { s with owners := Function.update s.owners adr status }

/-! ## Limits -/

/-- `_isOperatorPenalized` -/
def isOperatorPenalizedInternal (env : RegistryEnv) (stuckPenaltyStats : Packed) : Bool :=
  stuckPenaltyStats.get REFUNDED_VALIDATORS_COUNT_OFFSET
      < stuckPenaltyStats.get STUCK_VALIDATORS_COUNT_OFFSET ∨
    env.timestamp ≤ stuckPenaltyStats.get STUCK_PENALTY_END_TIMESTAMP_OFFSET

def isOperatorPenalized (env : RegistryEnv) (nodeOperatorId : Nat) : Bool :=
  isOperatorPenalizedInternal env (s.operators nodeOperatorId).stuckPenaltyStats

def isOperatorPenaltyCleared (env : RegistryEnv) (nodeOperatorId : Nat) : Bool :=
  let stuckPenaltyStats := (s.operators nodeOperatorId).stuckPenaltyStats
  isOperatorPenalizedInternal env stuckPenaltyStats = false ∧
    stuckPenaltyStats.get STUCK_PENALTY_END_TIMESTAMP_OFFSET = 0

/-- The first part of `_applyNodeOperatorLimits`: `newMaxSigningKeysCount`. -/
def newMaxSigningKeysCount (env : RegistryEnv) (nodeOperatorId : Nat) : Nat :=
  let signingKeysStats := (s.operators nodeOperatorId).signingKeysStats
  let operatorTargetStats := (s.operators nodeOperatorId).targetValidatorsStats
  let depositedSigningKeysCount := signingKeysStats.get TOTAL_DEPOSITED_KEYS_COUNT_OFFSET
  let vettedSigningKeysCount := signingKeysStats.get TOTAL_VETTED_KEYS_COUNT_OFFSET
  if s.isOperatorPenaltyCleared env nodeOperatorId = false then depositedSigningKeysCount
  else if operatorTargetStats.get IS_TARGET_LIMIT_ACTIVE_OFFSET ≠ 0 then
    max depositedSigningKeysCount
      (min vettedSigningKeysCount
        (uncheckedAdd (signingKeysStats.get TOTAL_EXITED_KEYS_COUNT_OFFSET)
          (operatorTargetStats.get TARGET_VALIDATORS_COUNT_OFFSET)))
  else vettedSigningKeysCount

/-- `_applyNodeOperatorLimits`; it also returns the old and the new maximum. -/
def applyNodeOperatorLimits (env : RegistryEnv) (nodeOperatorId : Nat) :
    Call RegistryError (NodeOperatorsRegistry × Nat × Nat) := do
  let newMaxSigningKeysCount := s.newMaxSigningKeysCount env nodeOperatorId
  let operatorTargetStats := (s.operators nodeOperatorId).targetValidatorsStats
  let oldMaxSigningKeysCount := operatorTargetStats.get MAX_VALIDATORS_COUNT_OFFSET
  if oldMaxSigningKeysCount ≠ newMaxSigningKeysCount then do
    let operatorTargetStats ← within .packed
      (operatorTargetStats.set MAX_VALIDATORS_COUNT_OFFSET newMaxSigningKeysCount)
    return (s.saveOperatorTargetValidatorsStats nodeOperatorId operatorTargetStats,
      oldMaxSigningKeysCount, newMaxSigningKeysCount)
  else return (s, oldMaxSigningKeysCount, newMaxSigningKeysCount)

/-- Take a summary counter from `oldCount` to `newCount`. -/
def updateSummary (offset : Fin 4) (oldCount newCount : Nat) : Call RegistryError Packed :=
  if oldCount < newCount then
    within .packed (s.summarySigningKeysStats.add offset (absDiff newCount oldCount))
  else within .packed (s.summarySigningKeysStats.sub offset (absDiff newCount oldCount))

/-- `_updateSummaryMaxValidatorsCount` -/
def updateSummaryMaxValidatorsCount (env : RegistryEnv) (nodeOperatorId : Nat) :
    Call RegistryError NodeOperatorsRegistry := do
  let (s, oldMaxSigningKeysCount, newMaxSigningKeysCount) ←
    s.applyNodeOperatorLimits env nodeOperatorId
  if newMaxSigningKeysCount = oldMaxSigningKeysCount then return s
  else do
    let summarySigningKeysStats ← s.updateSummary SUMMARY_MAX_VALIDATORS_COUNT_OFFSET
      oldMaxSigningKeysCount newMaxSigningKeysCount
    return s.saveSummarySigningKeysStats summarySigningKeysStats

/-! ## Operators -/

/-- `addNodeOperator`; it also returns the id. -/
def addNodeOperator (env : RegistryEnv) (name : Bytes) (rewardAddress : Address) :
    Call RegistryError (NodeOperatorsRegistry × Nat) := do
  s.onlyOwner env
  onlyValidNodeOperatorName name
  onlyValidRewardAddress env rewardAddress
  auth env .manageNodeOperator
  let id := s.totalOperatorsCount
  require (id < MAX_NODE_OPERATORS_COUNT) .maxOperatorsCountExceeded
  return ({ s with
    totalOperatorsCount := uncheckedAdd id 1
    activeOperatorsCount := uncheckedAdd s.activeOperatorsCount 1
    operators := Function.update s.operators id
      { s.operators id with active := true, name := name, rewardAddress := rewardAddress } }, id)

def activateNodeOperator (env : RegistryEnv) (nodeOperatorId : Nat) :
    Call RegistryError NodeOperatorsRegistry := do
  s.onlyExistedNodeOperator nodeOperatorId
  auth env .manageNodeOperator
  require ((s.operators nodeOperatorId).active = false) .wrongOperatorActiveState
  let s := { s with
    activeOperatorsCount := uncheckedAdd s.activeOperatorsCount 1
    operators := Function.update s.operators nodeOperatorId
      { s.operators nodeOperatorId with active := true } }
  return s.increaseValidatorsKeysNonce

def deactivateNodeOperator (env : RegistryEnv) (nodeOperatorId : Nat) :
    Call RegistryError NodeOperatorsRegistry := do
  s.onlyExistedNodeOperator nodeOperatorId
  auth env .manageNodeOperator
  require ((s.operators nodeOperatorId).active = true) .wrongOperatorActiveState
  let activeOperatorsCount ← safeSub s.activeOperatorsCount 1
  let s := { s with
    activeOperatorsCount := activeOperatorsCount
    operators := Function.update s.operators nodeOperatorId
      { s.operators nodeOperatorId with active := false } }
  let signingKeysStats := (s.operators nodeOperatorId).signingKeysStats
  let vettedSigningKeysCount := signingKeysStats.get TOTAL_VETTED_KEYS_COUNT_OFFSET
  let depositedSigningKeysCount := signingKeysStats.get TOTAL_DEPOSITED_KEYS_COUNT_OFFSET
  if depositedSigningKeysCount < vettedSigningKeysCount then do
    let signingKeysStats ← within .packed
      (signingKeysStats.set TOTAL_VETTED_KEYS_COUNT_OFFSET depositedSigningKeysCount)
    let s := s.saveOperatorSigningKeysStats nodeOperatorId signingKeysStats
    let s ← s.updateSummaryMaxValidatorsCount env nodeOperatorId
    return s.increaseValidatorsKeysNonce
  else return s.increaseValidatorsKeysNonce

/-- `setNodeOperatorName`; the source compares the hashes of the names. -/
def setNodeOperatorName (env : RegistryEnv) (nodeOperatorId : Nat) (name : Bytes) :
    Call RegistryError NodeOperatorsRegistry := do
  onlyValidNodeOperatorName name
  s.onlyExistedNodeOperator nodeOperatorId
  auth env .manageNodeOperator
  require ((s.operators nodeOperatorId).name ≠ name) .valueIsTheSame
  return { s with
    operators := Function.update s.operators nodeOperatorId
      { s.operators nodeOperatorId with name := name } }

def setNodeOperatorRewardAddress (env : RegistryEnv) (nodeOperatorId : Nat)
    (rewardAddress : Address) : Call RegistryError NodeOperatorsRegistry := do
  onlyValidRewardAddress env rewardAddress
  s.onlyExistedNodeOperator nodeOperatorId
  auth env .manageNodeOperator
  require ((s.operators nodeOperatorId).rewardAddress ≠ rewardAddress) .valueIsTheSame
  return { s with
    operators := Function.update s.operators nodeOperatorId
      { s.operators nodeOperatorId with rewardAddress := rewardAddress } }

def setNodeOperatorStakingLimit (env : RegistryEnv) (nodeOperatorId vettedSigningKeysCount : Nat) :
    Call RegistryError NodeOperatorsRegistry := do
  s.onlyOwner env
  s.onlyExistedNodeOperator nodeOperatorId
  require ((s.operators nodeOperatorId).active = true) .wrongOperatorActiveState
  let signingKeysStats := (s.operators nodeOperatorId).signingKeysStats
  let vettedSigningKeysCountBefore := signingKeysStats.get TOTAL_VETTED_KEYS_COUNT_OFFSET
  let depositedSigningKeysCount := signingKeysStats.get TOTAL_DEPOSITED_KEYS_COUNT_OFFSET
  let totalSigningKeysCount := signingKeysStats.get TOTAL_KEYS_COUNT_OFFSET
  let vettedSigningKeysCountAfter :=
    min totalSigningKeysCount (max vettedSigningKeysCount depositedSigningKeysCount)
  if vettedSigningKeysCountAfter = vettedSigningKeysCountBefore then return s
  else do
    let signingKeysStats ← within .packed
      (signingKeysStats.set TOTAL_VETTED_KEYS_COUNT_OFFSET vettedSigningKeysCountAfter)
    let s := s.saveOperatorSigningKeysStats nodeOperatorId signingKeysStats
    let s ← s.updateSummaryMaxValidatorsCount env nodeOperatorId
    return s.increaseValidatorsKeysNonce

/-! ## Reports -/

/-- `_updateExitedValidatorsCount` -/
def updateExitedValidatorsCountInternal (env : RegistryEnv)
    (nodeOperatorId exitedValidatorsCount : Nat) (allowDecrease : Bool) :
    Call RegistryError NodeOperatorsRegistry := do
  let signingKeysStats := (s.operators nodeOperatorId).signingKeysStats
  let oldExitedValidatorsCount := signingKeysStats.get TOTAL_EXITED_KEYS_COUNT_OFFSET
  if exitedValidatorsCount = oldExitedValidatorsCount then return s
  else do
    require (allowDecrease = true ∨ oldExitedValidatorsCount < exitedValidatorsCount)
      .exitedValidatorsCountDecreased
    let depositedValidatorsCount := signingKeysStats.get TOTAL_DEPOSITED_KEYS_COUNT_OFFSET
    let stuckValidatorsCount :=
      (s.operators nodeOperatorId).stuckPenaltyStats.get STUCK_VALIDATORS_COUNT_OFFSET
    ensure (stuckValidatorsCount ≤ depositedValidatorsCount)
    require (exitedValidatorsCount ≤ depositedValidatorsCount - stuckValidatorsCount) .outOfRange
    let signingKeysStats ← within .packed
      (signingKeysStats.set TOTAL_EXITED_KEYS_COUNT_OFFSET exitedValidatorsCount)
    let s := s.saveOperatorSigningKeysStats nodeOperatorId signingKeysStats
    let summarySigningKeysStats ← s.updateSummary SUMMARY_EXITED_KEYS_COUNT_OFFSET
      oldExitedValidatorsCount exitedValidatorsCount
    let s := s.saveSummarySigningKeysStats summarySigningKeysStats
    s.updateSummaryMaxValidatorsCount env nodeOperatorId

/-- The end of the penalty, which is set when the last stuck validator is resolved. -/
def updateStuckPenaltyEnd (env : RegistryEnv) (stuckPenaltyStats : Packed) (resolved : Prop)
    [Decidable resolved] : Call RegistryError Packed :=
  if resolved then
    within .packed (stuckPenaltyStats.set STUCK_PENALTY_END_TIMESTAMP_OFFSET
      (uncheckedAdd env.timestamp s.stuckPenaltyDelay))
  else return stuckPenaltyStats

/-- `_updateStuckValidatorsCount` -/
def updateStuckValidatorsCountInternal (env : RegistryEnv)
    (nodeOperatorId stuckValidatorsCount : Nat) : Call RegistryError NodeOperatorsRegistry := do
  let stuckPenaltyStats := (s.operators nodeOperatorId).stuckPenaltyStats
  let curStuckValidatorsCount := stuckPenaltyStats.get STUCK_VALIDATORS_COUNT_OFFSET
  if stuckValidatorsCount = curStuckValidatorsCount then return s
  else do
    let signingKeysStats := (s.operators nodeOperatorId).signingKeysStats
    let exitedValidatorsCount := signingKeysStats.get TOTAL_EXITED_KEYS_COUNT_OFFSET
    let depositedValidatorsCount := signingKeysStats.get TOTAL_DEPOSITED_KEYS_COUNT_OFFSET
    ensure (exitedValidatorsCount ≤ depositedValidatorsCount)
    require (stuckValidatorsCount ≤ depositedValidatorsCount - exitedValidatorsCount) .outOfRange
    let curRefundedValidatorsCount := stuckPenaltyStats.get REFUNDED_VALIDATORS_COUNT_OFFSET
    let stuckPenaltyStats ← s.updateStuckPenaltyEnd env stuckPenaltyStats
      (stuckValidatorsCount ≤ curRefundedValidatorsCount ∧
        curRefundedValidatorsCount < curStuckValidatorsCount)
    let stuckPenaltyStats ← within .packed
      (stuckPenaltyStats.set STUCK_VALIDATORS_COUNT_OFFSET stuckValidatorsCount)
    let s := s.saveOperatorStuckPenaltyStats nodeOperatorId stuckPenaltyStats
    s.updateSummaryMaxValidatorsCount env nodeOperatorId

/-- `_updateRefundValidatorsKeysCount` -/
def updateRefundValidatorsKeysCount (env : RegistryEnv)
    (nodeOperatorId refundedValidatorsCount : Nat) : Call RegistryError NodeOperatorsRegistry := do
  let stuckPenaltyStats := (s.operators nodeOperatorId).stuckPenaltyStats
  let curRefundedValidatorsCount := stuckPenaltyStats.get REFUNDED_VALIDATORS_COUNT_OFFSET
  if refundedValidatorsCount = curRefundedValidatorsCount then return s
  else do
    let signingKeysStats := (s.operators nodeOperatorId).signingKeysStats
    require (refundedValidatorsCount ≤ signingKeysStats.get TOTAL_DEPOSITED_KEYS_COUNT_OFFSET)
      .outOfRange
    let curStuckValidatorsCount := stuckPenaltyStats.get STUCK_VALIDATORS_COUNT_OFFSET
    let stuckPenaltyStats ← s.updateStuckPenaltyEnd env stuckPenaltyStats
      (curStuckValidatorsCount ≤ refundedValidatorsCount ∧
        curRefundedValidatorsCount < curStuckValidatorsCount)
    let stuckPenaltyStats ← within .packed
      (stuckPenaltyStats.set REFUNDED_VALIDATORS_COUNT_OFFSET refundedValidatorsCount)
    let s := s.saveOperatorStuckPenaltyStats nodeOperatorId stuckPenaltyStats
    s.updateSummaryMaxValidatorsCount env nodeOperatorId

/-- `_checkReportPayload` -/
def checkReportPayload (idsLength countsLength : Nat) : Call RegistryError Nat := do
  let count := idsLength / 8
  require (countsLength / 16 = count ∧ idsLength % 8 = 0 ∧ countsLength % 16 = 0)
    .invalidReportData
  return count

/--
The loop over a report, from position `i` on. An id takes 8 bytes and a count 16, at the upper
end of the word that is loaded.
-/
def reportLoop (update : NodeOperatorsRegistry → Nat → Nat → Call RegistryError NodeOperatorsRegistry)
    (totalNodeOperatorsCount : Nat) (nodeOperatorIds validatorsCounts : Bytes) :
    Nat → Nat → NodeOperatorsRegistry → Call RegistryError NodeOperatorsRegistry
  | 0, _, s => return s
  | left + 1, i, s => do
    let nodeOperatorId := (mload nodeOperatorIds (i * 8) >>> 192).toNat
    let validatorsCount := (mload validatorsCounts (i * 16) >>> 128).toNat
    require (nodeOperatorId < totalNodeOperatorsCount) .outOfRange
    let s ← update s nodeOperatorId validatorsCount
    reportLoop update totalNodeOperatorsCount nodeOperatorIds validatorsCounts left (i + 1) s

def updateStuckValidatorsCount (env : RegistryEnv)
    (nodeOperatorIds stuckValidatorsCounts : Bytes) :
    Call RegistryError NodeOperatorsRegistry := do
  auth env .stakingRouter
  let nodeOperatorsCount ←
    checkReportPayload nodeOperatorIds.length stuckValidatorsCounts.length
  let s ← reportLoop
    (fun s id count => s.updateStuckValidatorsCountInternal env id count)
    s.totalOperatorsCount nodeOperatorIds stuckValidatorsCounts nodeOperatorsCount 0 s
  return s.increaseValidatorsKeysNonce

def updateExitedValidatorsCount (env : RegistryEnv)
    (nodeOperatorIds exitedValidatorsCounts : Bytes) :
    Call RegistryError NodeOperatorsRegistry := do
  auth env .stakingRouter
  let nodeOperatorsCount ←
    checkReportPayload nodeOperatorIds.length exitedValidatorsCounts.length
  let s ← reportLoop
    (fun s id count => s.updateExitedValidatorsCountInternal env id count false)
    s.totalOperatorsCount nodeOperatorIds exitedValidatorsCounts nodeOperatorsCount 0 s
  return s.increaseValidatorsKeysNonce

def updateRefundedValidatorsCount (env : RegistryEnv)
    (nodeOperatorId refundedValidatorsCount : Nat) : Call RegistryError NodeOperatorsRegistry := do
  s.onlyExistedNodeOperator nodeOperatorId
  auth env .stakingRouter
  s.updateRefundValidatorsKeysCount env nodeOperatorId refundedValidatorsCount

def unsafeUpdateValidatorsCount (env : RegistryEnv)
    (nodeOperatorId exitedValidatorsCount stuckValidatorsCount : Nat) :
    Call RegistryError NodeOperatorsRegistry := do
  s.onlyExistedNodeOperator nodeOperatorId
  auth env .stakingRouter
  let s ← s.updateStuckValidatorsCountInternal env nodeOperatorId stuckValidatorsCount
  let s ← s.updateExitedValidatorsCountInternal env nodeOperatorId exitedValidatorsCount true
  return s.increaseValidatorsKeysNonce

def updateTargetValidatorsLimits (env : RegistryEnv) (nodeOperatorId : Nat)
    (isTargetLimitActive : Bool) (targetLimit : Nat) :
    Call RegistryError NodeOperatorsRegistry := do
  s.onlyExistedNodeOperator nodeOperatorId
  auth env .stakingRouter
  require (targetLimit ≤ UINT64_MAX) .outOfRange
  let operatorTargetStats := (s.operators nodeOperatorId).targetValidatorsStats
  let operatorTargetStats ← within .packed
    (operatorTargetStats.set IS_TARGET_LIMIT_ACTIVE_OFFSET (if isTargetLimitActive then 1 else 0))
  let operatorTargetStats ← within .packed
    (operatorTargetStats.set TARGET_VALIDATORS_COUNT_OFFSET
      (if isTargetLimitActive then targetLimit else 0))
  let s := s.saveOperatorTargetValidatorsStats nodeOperatorId operatorTargetStats
  let s ← s.updateSummaryMaxValidatorsCount env nodeOperatorId
  return s.increaseValidatorsKeysNonce

/-- `clearNodeOperatorPenalty`; anybody may call it. -/
def clearNodeOperatorPenalty (env : RegistryEnv) (nodeOperatorId : Nat) :
    Call RegistryError NodeOperatorsRegistry := do
  let stuckPenaltyStats := (s.operators nodeOperatorId).stuckPenaltyStats
  require (isOperatorPenalizedInternal env stuckPenaltyStats = false ∧
    stuckPenaltyStats.get STUCK_PENALTY_END_TIMESTAMP_OFFSET ≠ 0) .cantClearPenalty
  let stuckPenaltyStats ← within .packed
    (stuckPenaltyStats.set STUCK_PENALTY_END_TIMESTAMP_OFFSET 0)
  let s := s.saveOperatorStuckPenaltyStats nodeOperatorId stuckPenaltyStats
  let s ← s.updateSummaryMaxValidatorsCount env nodeOperatorId
  return s.increaseValidatorsKeysNonce

end NodeOperatorsRegistry

end Catalist
