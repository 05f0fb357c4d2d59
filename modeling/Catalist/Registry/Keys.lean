import Catalist.Registry.Base
import Catalist.Registry.MinFirstAllocation

/-!
# Keys of node operators

The functions of `NodeOperatorsRegistry.sol` that add, remove, invalidate and hand out keys. The
hash that places a key in the storage is the parameter `getKeyOffset`.
-/

namespace Catalist

open Solidity ByteBuffer

namespace NodeOperatorsRegistry

variable (s : NodeOperatorsRegistry)

/-! ## Adding and removing -/

section keys

variable (getKeyOffset : Nat → Nat → BitVec 256)

/-- `_addSigningKeys` -/
def addSigningKeysInternal (nodeOperatorId keysCount : Nat) (publicKeys signatures : Bytes) :
    Call RegistryError NodeOperatorsRegistry := do
  s.onlyExistedNodeOperator nodeOperatorId
  s.isActiveOperator nodeOperatorId
  require (keysCount ≠ 0 ∧ keysCount ≤ UINT64_MAX) .outOfRange
  let signingKeysStats := (s.operators nodeOperatorId).signingKeysStats
  let totalSigningKeysCount := signingKeysStats.get TOTAL_KEYS_COUNT_OFFSET
  let newTotalSigningKeysCount ← safeAdd totalSigningKeysCount keysCount
  require (newTotalSigningKeysCount ≤ UINT64_MAX) .outOfRange
  let (signingKeys, totalSigningKeysCount) ← SigningKeys.saveKeysSigs s.signingKeys getKeyOffset
    nodeOperatorId totalSigningKeysCount keysCount publicKeys signatures
  let s := { s with signingKeys := signingKeys }
  let signingKeysStats ← within .packed
    (signingKeysStats.set TOTAL_KEYS_COUNT_OFFSET totalSigningKeysCount)
  let s := s.saveOperatorSigningKeysStats nodeOperatorId signingKeysStats
  let summarySigningKeysStats ← within .packed
    (s.summarySigningKeysStats.add SUMMARY_TOTAL_KEYS_COUNT_OFFSET keysCount)
  let s := s.saveSummarySigningKeysStats summarySigningKeysStats
  return s.increaseValidatorsKeysNonce

def addSigningKeys (env : RegistryEnv) (nodeOperatorId keysCount : Nat)
    (publicKeys signatures : Bytes) : Call RegistryError NodeOperatorsRegistry := do
  s.onlyOwner env
  s.addSigningKeysInternal getKeyOffset nodeOperatorId keysCount publicKeys signatures

/-- `addSigningKeysOperatorBH`, the deprecated name of `addSigningKeys`. -/
def addSigningKeysOperatorBH (env : RegistryEnv) (nodeOperatorId keysCount : Nat)
    (publicKeys signatures : Bytes) : Call RegistryError NodeOperatorsRegistry := do
  s.onlyOwner env
  s.addSigningKeysInternal getKeyOffset nodeOperatorId keysCount publicKeys signatures

/-- `_removeUnusedSigningKeys` -/
def removeUnusedSigningKeys (env : RegistryEnv) (nodeOperatorId fromIndex keysCount : Nat) :
    Call RegistryError NodeOperatorsRegistry := do
  s.onlyExistedNodeOperator nodeOperatorId
  s.isActiveOperator nodeOperatorId
  if keysCount = 0 then return s
  else do
    let signingKeysStats := (s.operators nodeOperatorId).signingKeysStats
    let totalSigningKeysCount := signingKeysStats.get TOTAL_KEYS_COUNT_OFFSET
    require (signingKeysStats.get TOTAL_DEPOSITED_KEYS_COUNT_OFFSET ≤ fromIndex) .outOfRange
    let endIndex ← safeAdd fromIndex keysCount
    require (endIndex ≤ totalSigningKeysCount) .outOfRange
    let (signingKeys, totalSigningKeysCount) ← SigningKeys.removeKeysSigs s.signingKeys
      getKeyOffset nodeOperatorId fromIndex keysCount totalSigningKeysCount
    let s := { s with signingKeys := signingKeys }
    let signingKeysStats ← within .packed
      (signingKeysStats.set TOTAL_KEYS_COUNT_OFFSET totalSigningKeysCount)
    -- decreasing the staking limit so the key at the index can't be used anymore
    let vettedSigningKeysCount := signingKeysStats.get TOTAL_VETTED_KEYS_COUNT_OFFSET
    let signingKeysStats ← within .packed
      (if fromIndex < vettedSigningKeysCount then
        signingKeysStats.set TOTAL_VETTED_KEYS_COUNT_OFFSET fromIndex
      else return signingKeysStats)
    let s := s.saveOperatorSigningKeysStats nodeOperatorId signingKeysStats
    let summarySigningKeysStats ← within .packed
      (s.summarySigningKeysStats.sub SUMMARY_TOTAL_KEYS_COUNT_OFFSET keysCount)
    let s := s.saveSummarySigningKeysStats summarySigningKeysStats
    let s ← s.updateSummaryMaxValidatorsCount env nodeOperatorId
    return s.increaseValidatorsKeysNonce

def removeSigningKeys (env : RegistryEnv) (nodeOperatorId fromIndex keysCount : Nat) :
    Call RegistryError NodeOperatorsRegistry := do
  s.onlyOwner env
  s.removeUnusedSigningKeys getKeyOffset env nodeOperatorId fromIndex keysCount

def removeSigningKey (env : RegistryEnv) (nodeOperatorId index : Nat) :
    Call RegistryError NodeOperatorsRegistry := do
  s.onlyOwner env
  s.removeUnusedSigningKeys getKeyOffset env nodeOperatorId index 1

/-- `removeSigningKeysOperatorBH`, a deprecated name of `removeSigningKeys`. -/
def removeSigningKeysOperatorBH (env : RegistryEnv) (nodeOperatorId fromIndex keysCount : Nat) :
    Call RegistryError NodeOperatorsRegistry := do
  s.onlyOwner env
  s.removeUnusedSigningKeys getKeyOffset env nodeOperatorId fromIndex keysCount

/-- `removeSigningKeyOperatorBH`, a deprecated name of `removeSigningKey`. -/
def removeSigningKeyOperatorBH (env : RegistryEnv) (nodeOperatorId index : Nat) :
    Call RegistryError NodeOperatorsRegistry := do
  s.onlyOwner env
  s.removeUnusedSigningKeys getKeyOffset env nodeOperatorId index 1

end keys

/-! ## Invalidating -/

/--
The loop of `_invalidateReadyToDepositKeysRange` over the ids that are left, after
`totalTrimmedKeysCount` keys were trimmed.
-/
def invalidateLoop (env : RegistryEnv) : List Nat → Nat → NodeOperatorsRegistry →
    Call RegistryError (NodeOperatorsRegistry × Nat)
  | [], totalTrimmedKeysCount, s => return (s, totalTrimmedKeysCount)
  | nodeOperatorId :: nodeOperatorIds, totalTrimmedKeysCount, s => do
    let signingKeysStats := (s.operators nodeOperatorId).signingKeysStats
    let totalSigningKeysCount := signingKeysStats.get TOTAL_KEYS_COUNT_OFFSET
    let depositedSigningKeysCount := signingKeysStats.get TOTAL_DEPOSITED_KEYS_COUNT_OFFSET
    if totalSigningKeysCount = depositedSigningKeysCount then
      invalidateLoop env nodeOperatorIds totalTrimmedKeysCount s
    else do
      ensure (depositedSigningKeysCount < totalSigningKeysCount)
      let trimmedKeysCount := totalSigningKeysCount - depositedSigningKeysCount
      let totalTrimmedKeysCount := uncheckedAdd totalTrimmedKeysCount trimmedKeysCount
      let signingKeysStats ← within .packed
        (signingKeysStats.set TOTAL_KEYS_COUNT_OFFSET depositedSigningKeysCount)
      let signingKeysStats ← within .packed
        (signingKeysStats.set TOTAL_VETTED_KEYS_COUNT_OFFSET depositedSigningKeysCount)
      let s := s.saveOperatorSigningKeysStats nodeOperatorId signingKeysStats
      let s ← s.updateSummaryMaxValidatorsCount env nodeOperatorId
      invalidateLoop env nodeOperatorIds totalTrimmedKeysCount s

/-- `_invalidateReadyToDepositKeysRange` -/
def invalidateReadyToDepositKeysRangeInternal (env : RegistryEnv) (indexFrom indexTo : Nat) :
    Call RegistryError NodeOperatorsRegistry := do
  require (indexFrom ≤ indexTo ∧ indexTo < s.totalOperatorsCount) .outOfRange
  let (s, totalTrimmedKeysCount) ←
    invalidateLoop env (List.range' indexFrom (indexTo + 1 - indexFrom)) 0 s
  if 0 < totalTrimmedKeysCount then do
    let summarySigningKeysStats ← within .packed
      (s.summarySigningKeysStats.sub SUMMARY_TOTAL_KEYS_COUNT_OFFSET totalTrimmedKeysCount)
    let s := s.saveSummarySigningKeysStats summarySigningKeysStats
    return s.increaseValidatorsKeysNonce
  else return s

def invalidateReadyToDepositKeysRange (env : RegistryEnv) (indexFrom indexTo : Nat) :
    Call RegistryError NodeOperatorsRegistry := do
  auth env .manageNodeOperator
  s.invalidateReadyToDepositKeysRangeInternal env indexFrom indexTo

def onWithdrawalCredentialsChanged (env : RegistryEnv) :
    Call RegistryError NodeOperatorsRegistry := do
  auth env .stakingRouter
  let operatorsCount := s.totalOperatorsCount
  if 0 < operatorsCount then
    s.invalidateReadyToDepositKeysRangeInternal env 0 (operatorsCount - 1)
  else return s

/-! ## Handing out -/

/-- `_getNodeOperator`: the exited, deposited and maximal counts. -/
def getNodeOperator (nodeOperatorId : Nat) : Call RegistryError (Nat × Nat × Nat) := do
  let signingKeysStats := (s.operators nodeOperatorId).signingKeysStats
  let operatorTargetStats := (s.operators nodeOperatorId).targetValidatorsStats
  let exitedSigningKeysCount := signingKeysStats.get TOTAL_EXITED_KEYS_COUNT_OFFSET
  let depositedSigningKeysCount := signingKeysStats.get TOTAL_DEPOSITED_KEYS_COUNT_OFFSET
  let maxSigningKeysCount := operatorTargetStats.get MAX_VALIDATORS_COUNT_OFFSET
  ensure (depositedSigningKeysCount ≤ maxSigningKeysCount ∧
    exitedSigningKeysCount ≤ depositedSigningKeysCount)
  return (exitedSigningKeysCount, depositedSigningKeysCount, maxSigningKeysCount)

/-- The arrays of `_getSigningKeysAllocationData`. -/
structure AllocationArrays where
  nodeOperatorIds : List Nat
  activeKeyCountsAfterAllocation : List Nat
  activeKeysCapacities : List Nat
deriving DecidableEq, Repr

/-- The arrays with their lengths set to `length`. -/
def AllocationArrays.shrink (arrays : AllocationArrays) (length : Nat) : AllocationArrays where
  nodeOperatorIds := arrays.nodeOperatorIds.take length
  activeKeyCountsAfterAllocation := arrays.activeKeyCountsAfterAllocation.take length
  activeKeysCapacities := arrays.activeKeysCapacities.take length

/-- The loop of `_getSigningKeysAllocationData` over the ids that are left. -/
def allocationLoop : List Nat → AllocationArrays → Nat →
    Call RegistryError (AllocationArrays × Nat)
  | [], arrays, activeNodeOperatorIndex => return (arrays, activeNodeOperatorIndex)
  | nodeOperatorId :: rest, arrays, activeNodeOperatorIndex => do
    let (exitedSigningKeysCount, depositedSigningKeysCount, maxSigningKeysCount) ←
      s.getNodeOperator nodeOperatorId
    if depositedSigningKeysCount = maxSigningKeysCount then
      allocationLoop rest arrays activeNodeOperatorIndex
    else do
      let nodeOperatorIds ←
        setIndex arrays.nodeOperatorIds activeNodeOperatorIndex nodeOperatorId
      let activeKeyCountsAfterAllocation ← setIndex arrays.activeKeyCountsAfterAllocation
        activeNodeOperatorIndex (depositedSigningKeysCount - exitedSigningKeysCount)
      let activeKeysCapacities ← setIndex arrays.activeKeysCapacities activeNodeOperatorIndex
        (maxSigningKeysCount - exitedSigningKeysCount)
      allocationLoop rest
        { nodeOperatorIds := nodeOperatorIds
          activeKeyCountsAfterAllocation := activeKeyCountsAfterAllocation
          activeKeysCapacities := activeKeysCapacities }
        (uncheckedAdd activeNodeOperatorIndex 1)

/-- `_getSigningKeysAllocationData`; it returns the allocated count, the ids and the counts. -/
def getSigningKeysAllocationData (keysCount : Nat) :
    Call RegistryError (Nat × List Nat × List Nat) := do
  let activeNodeOperatorsCount := s.activeOperatorsCount
  let zeros := List.replicate activeNodeOperatorsCount 0
  let (arrays, activeNodeOperatorIndex) ← s.allocationLoop (List.range s.totalOperatorsCount)
    { nodeOperatorIds := zeros
      activeKeyCountsAfterAllocation := zeros
      activeKeysCapacities := zeros } 0
  if activeNodeOperatorIndex = 0 then return (0, [], [])
  else do
    let arrays := if activeNodeOperatorIndex < activeNodeOperatorsCount then
        arrays.shrink activeNodeOperatorIndex
      else arrays
    let (activeKeyCountsAfterAllocation, allocatedKeysCount) ←
      MinFirstAllocationStrategy.allocate arrays.activeKeyCountsAfterAllocation
        arrays.activeKeysCapacities keysCount
    ensure (allocatedKeysCount ≤ keysCount)
    return (allocatedKeysCount, arrays.nodeOperatorIds, activeKeyCountsAfterAllocation)

section keys

variable (getKeyOffset : Nat → Nat → BitVec 256)

/--
The loop of `_loadAllocatedSigningKeys`, over the entries of both arrays that are left. The
buffers are filled up to `loadedKeysCount`.
-/
def loadAllocatedLoop (env : RegistryEnv) : List Nat → List Nat → NodeOperatorsRegistry →
    Bytes × Bytes → Nat → Call RegistryError (NodeOperatorsRegistry × (Bytes × Bytes) × Nat)
  | [], _, s, buffers, loadedKeysCount => return (s, buffers, loadedKeysCount)
  | _ :: _, [], _, _, _ => .error (.panic .indexOutOfBounds)
  | nodeOperatorId :: nodeOperatorIds, activeKeyCount :: activeKeyCounts, s, buffers,
    loadedKeysCount => do
    let signingKeysStats := (s.operators nodeOperatorId).signingKeysStats
    let depositedSigningKeysCountBefore :=
      signingKeysStats.get TOTAL_DEPOSITED_KEYS_COUNT_OFFSET
    let depositedSigningKeysCountAfter :=
      uncheckedAdd (signingKeysStats.get TOTAL_EXITED_KEYS_COUNT_OFFSET) activeKeyCount
    if depositedSigningKeysCountAfter = depositedSigningKeysCountBefore then
      loadAllocatedLoop env nodeOperatorIds activeKeyCounts s buffers loadedKeysCount
    else do
      ensure (depositedSigningKeysCountBefore < depositedSigningKeysCountAfter)
      let keysCount := depositedSigningKeysCountAfter - depositedSigningKeysCountBefore
      let buffers := SigningKeys.loadKeysSigs s.signingKeys getKeyOffset nodeOperatorId
        depositedSigningKeysCountBefore keysCount buffers loadedKeysCount
      let loadedKeysCount := uncheckedAdd loadedKeysCount keysCount
      let signingKeysStats ← within .packed
        (signingKeysStats.set TOTAL_DEPOSITED_KEYS_COUNT_OFFSET depositedSigningKeysCountAfter)
      let s := s.saveOperatorSigningKeysStats nodeOperatorId signingKeysStats
      let s ← s.updateSummaryMaxValidatorsCount env nodeOperatorId
      loadAllocatedLoop env nodeOperatorIds activeKeyCounts s buffers loadedKeysCount

/-- `_loadAllocatedSigningKeys` -/
def loadAllocatedSigningKeys (env : RegistryEnv) (keysCountToLoad : Nat)
    (nodeOperatorIds activeKeyCountsAfterAllocation : List Nat) :
    Call RegistryError (NodeOperatorsRegistry × Bytes × Bytes) := do
  let buffers ← SigningKeys.initKeysSigsBuf keysCountToLoad
  let (s, buffers, loadedKeysCount) ← loadAllocatedLoop getKeyOffset env nodeOperatorIds
    activeKeyCountsAfterAllocation s buffers 0
  ensure (loadedKeysCount = keysCountToLoad)
  let summarySigningKeysStats ← within .packed
    (s.summarySigningKeysStats.add SUMMARY_DEPOSITED_KEYS_COUNT_OFFSET loadedKeysCount)
  return (s.saveSummarySigningKeysStats summarySigningKeysStats, buffers)

/-- `obtainDepositData`; it returns the public keys and the signatures. -/
def obtainDepositData (env : RegistryEnv) (depositsCount : Nat) :
    Call RegistryError (NodeOperatorsRegistry × Bytes × Bytes) := do
  auth env .stakingRouter
  if depositsCount = 0 then return (s, [], [])
  else do
    let (allocatedKeysCount, nodeOperatorIds, activeKeysCountAfterAllocation) ←
      s.getSigningKeysAllocationData depositsCount
    require (allocatedKeysCount = depositsCount) .invalidAllocatedKeysCount
    let (s, publicKeys, signatures) ← s.loadAllocatedSigningKeys getKeyOffset env
      allocatedKeysCount nodeOperatorIds activeKeysCountAfterAllocation
    return (s.increaseValidatorsKeysNonce, publicKeys, signatures)

end keys

/-- `getStakingModuleSummary`: the exited, deposited and depositable counts. -/
def getStakingModuleSummary : Call RegistryError (Nat × Nat × Nat) := do
  let summarySigningKeysStats := s.summarySigningKeysStats
  let totalExitedValidators := summarySigningKeysStats.get SUMMARY_EXITED_KEYS_COUNT_OFFSET
  let totalDepositedValidators := summarySigningKeysStats.get SUMMARY_DEPOSITED_KEYS_COUNT_OFFSET
  let depositableValidatorsCount ←
    safeSub (summarySigningKeysStats.get SUMMARY_MAX_VALIDATORS_COUNT_OFFSET)
      totalDepositedValidators
  return (totalExitedValidators, totalDepositedValidators, depositableValidatorsCount)

end NodeOperatorsRegistry

end Catalist
