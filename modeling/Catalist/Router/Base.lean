import Catalist.Evm
import Catalist.Lib.ByteBuffer
import Catalist.Lib.Checked
import Mathlib.Logic.Function.Basic

/-!
# The staking router

`StakingRouter.sol`: the staking modules, their shares of the deposits and of the fees, and deposits
to the modules. Modules are stored by index, and `stakingModuleIndicesOneBased` maps their ids to
index plus one; both are mappings, so a place that was never written holds zeros.

The modules are other contracts, and so is the deposit contract. `RouterCallees` holds what the
router asks them, over their state `ρ`; a call of one of them that reverts reverts the call of the
router with it. The roles are those of `AccessControl.sol`. Events are not modelled, and neither are
the functions that only read, unless others here use them.
-/

namespace Catalist

open Solidity

/-- `StakingModuleStatus`: deposits and rewards, rewards only, or neither. -/
inductive StakingModuleStatus where
  | active
  | depositsPaused
  | stopped
deriving DecidableEq, Repr

/-- The widths of the fields are `uint24`, three times `uint16`, and `uint64` for the time. -/
structure StakingModule where
  id : Nat
  stakingModuleAddress : Address
  stakingModuleFee : Nat
  treasuryFee : Nat
  targetShare : Nat
  status : StakingModuleStatus
  name : Bytes
  lastDepositAt : Nat
  lastDepositBlock : Nat
  exitedValidatorsCount : Nat

structure StakingModuleCache where
  stakingModuleAddress : Address
  stakingModuleId : Nat
  stakingModuleFee : Nat
  treasuryFee : Nat
  targetShare : Nat
  status : StakingModuleStatus
  activeValidatorsCount : Nat
  availableValidatorsCount : Nat
deriving DecidableEq, Repr

/-- What `getStakingModuleSummary` returns. -/
structure StakingModuleSummary where
  totalExitedValidators : Nat
  totalDepositedValidators : Nat
  depositableValidatorsCount : Nat
deriving DecidableEq, Repr

/-- The roles of the router that the functions below check. -/
inductive RouterRole where
  | stakingModuleManage
  | stakingModulePause
  | stakingModuleResume
  | reportExitedValidators
deriving DecidableEq, Repr

inductive RouterError (ε : Type) where
  | missingRole (role : RouterRole) (account : Address)
  | valueOver100Percent (field : String)
  | zeroAddress (field : String)
  | stakingModuleWrongName
  | stakingModulesLimitExceeded
  | stakingModuleAddressExists
  | stakingModuleUnregistered
  | stakingModuleStatusTheSame
  | stakingModuleNotActive
  | stakingModuleNotPaused
  | appAuthCatalistFailed
  | emptyWithdrawalsCredentials
  | invalidDepositsValue (aceValue depositsCount : Nat)
  | invalidPublicKeysBatchLength (actual expected : Nat)
  | invalidSignaturesBatchLength (actual expected : Nat)
  | exitedValidatorsCountCannotDecrease
  | reportedExitedValidatorsExceedDeposited (reported deposited : Nat)
  | arraysLengthMismatch (firstLength secondLength : Nat)
  | invalidReportData (code : Nat)
  /-- a value transfer that exceeds the balance of the router -/
  | notEnoughBalance
  /-- the revert of a module or of the deposit contract -/
  | callee (e : ε)
deriving DecidableEq, Repr

structure RouterEnv extends Env where
  /-- `block.number` -/
  blockNumber : Nat

/-- The calls of the router to modules, by address, and to the deposit contract. -/
structure RouterCallees (ε ρ : Type) where
  getStakingModuleSummary : ρ → Address → Call ε StakingModuleSummary
  /-- It returns the public keys and the signatures. -/
  obtainDepositData : ρ → Address → Nat → Bytes → Call ε (ρ × Bytes × Bytes)
  /--
  `DEPOSIT_CONTRACT.deposit` with a value of 32 ether, for a public key, the withdrawal credentials
  and a signature. The root of these data, which is passed along, is theirs.
  -/
  deposit : ρ → Bytes → Bytes → Bytes → Call ε ρ

structure StakingRouter where
  catalist : Address
  withdrawalCredentials : BitVec 256
  stakingModules : Nat → StakingModule
  stakingModulesCount : Nat
  stakingModuleIndicesOneBased : Nat → Nat
  lastStakingModuleId : Nat
  hasRole : RouterRole → Address → Bool
  /-- `address(this).balance` -/
  balance : Nat

namespace StakingRouter

def FEE_PRECISION_POINTS : Nat := 10 ^ 20

def TOTAL_BASIS_POINTS : Nat := 10000

def MAX_STAKING_MODULES_COUNT : Nat := 32

def MAX_STAKING_MODULE_NAME_LENGTH : Nat := 31

/-- `DEPOSIT_SIZE` of `BeaconChainDepositor.sol`, 32 ether -/
def DEPOSIT_SIZE : Nat := 32 * 10 ^ 18

def PUBLIC_KEY_LENGTH : Nat := 48

def SIGNATURE_LENGTH : Nat := 96

variable {ε : Type} (s : StakingRouter)

/-! ## The modules -/

/-- `_getStakingModuleIndexById` -/
def getStakingModuleIndexById (stakingModuleId : Nat) : Call (RouterError ε) Nat := do
  let indexOneBased := s.stakingModuleIndicesOneBased stakingModuleId
  require (indexOneBased ≠ 0) .stakingModuleUnregistered
  return indexOneBased - 1

/-- A module is written to its place. -/
def setStakingModule (index : Nat) (stakingModule : StakingModule) : StakingRouter :=
  { s with stakingModules := Function.update s.stakingModules index stakingModule }

/-- `onlyRole` -/
def onlyRole (env : RouterEnv) (role : RouterRole) : Call (RouterError ε) Unit :=
  require (s.hasRole role env.sender = true) (.missingRole role env.sender)

/-- The checks of shares and fees that `addStakingModule` and `updateStakingModule` begin with. -/
def checkShares (targetShare stakingModuleFee treasuryFee : Nat) : Call (RouterError ε) Unit := do
  require (targetShare ≤ TOTAL_BASIS_POINTS) (.valueOver100Percent "_targetShare")
  let fees ← checkedAdd 256 stakingModuleFee treasuryFee
  require (fees ≤ TOTAL_BASIS_POINTS) (.valueOver100Percent "_stakingModuleFee + _treasuryFee")

/-- `addStakingModule`, for a name as bytes -/
def addStakingModule (env : RouterEnv) (name : Bytes) (stakingModuleAddress : Address)
    (targetShare stakingModuleFee treasuryFee : Nat) : Call (RouterError ε) StakingRouter := do
  s.onlyRole env .stakingModuleManage
  checkShares targetShare stakingModuleFee treasuryFee
  require (stakingModuleAddress ≠ 0) (.zeroAddress "_stakingModuleAddress")
  require (name.length ≠ 0 ∧ name.length ≤ MAX_STAKING_MODULE_NAME_LENGTH) .stakingModuleWrongName
  let newStakingModuleIndex := s.stakingModulesCount
  require (newStakingModuleIndex < MAX_STAKING_MODULES_COUNT) .stakingModulesLimitExceeded
  require (∀ i < newStakingModuleIndex,
    stakingModuleAddress ≠ (s.stakingModules i).stakingModuleAddress) .stakingModuleAddressExists
  let newStakingModuleId ← checkedAdd 24 (s.lastStakingModuleId % 2 ^ 24) 1
  let s := s.setStakingModule newStakingModuleIndex { s.stakingModules newStakingModuleIndex with
    id := newStakingModuleId
    name := name
    stakingModuleAddress := stakingModuleAddress
    targetShare := targetShare % 2 ^ 16
    stakingModuleFee := stakingModuleFee % 2 ^ 16
    treasuryFee := treasuryFee % 2 ^ 16
    status := .active
    lastDepositAt := env.timestamp % 2 ^ 64
    lastDepositBlock := env.blockNumber }
  return { s with
    stakingModuleIndicesOneBased := Function.update s.stakingModuleIndicesOneBased
      newStakingModuleId (newStakingModuleIndex + 1)
    lastStakingModuleId := newStakingModuleId
    stakingModulesCount := newStakingModuleIndex + 1 }

/-- `updateStakingModule` -/
def updateStakingModule (env : RouterEnv)
    (stakingModuleId targetShare stakingModuleFee treasuryFee : Nat) :
    Call (RouterError ε) StakingRouter := do
  s.onlyRole env .stakingModuleManage
  checkShares targetShare stakingModuleFee treasuryFee
  let index ← s.getStakingModuleIndexById stakingModuleId
  return s.setStakingModule index { s.stakingModules index with
    targetShare := targetShare % 2 ^ 16
    treasuryFee := treasuryFee % 2 ^ 16
    stakingModuleFee := stakingModuleFee % 2 ^ 16 }

/-- `_setStakingModuleStatus`, for the module at an index -/
def setStatus (index : Nat) (status : StakingModuleStatus) : StakingRouter :=
  if (s.stakingModules index).status ≠ status then
    s.setStakingModule index { s.stakingModules index with status := status }
  else s

/-- `setStakingModuleStatus` -/
def setStakingModuleStatus (env : RouterEnv) (stakingModuleId : Nat)
    (status : StakingModuleStatus) : Call (RouterError ε) StakingRouter := do
  s.onlyRole env .stakingModuleManage
  let index ← s.getStakingModuleIndexById stakingModuleId
  require ((s.stakingModules index).status ≠ status) .stakingModuleStatusTheSame
  return s.setStatus index status

/-- `pauseStakingModule` -/
def pauseStakingModule (env : RouterEnv) (stakingModuleId : Nat) :
    Call (RouterError ε) StakingRouter := do
  s.onlyRole env .stakingModulePause
  let index ← s.getStakingModuleIndexById stakingModuleId
  require ((s.stakingModules index).status = .active) .stakingModuleNotActive
  return s.setStatus index .depositsPaused

/-- `resumeStakingModule` -/
def resumeStakingModule (env : RouterEnv) (stakingModuleId : Nat) :
    Call (RouterError ε) StakingRouter := do
  s.onlyRole env .stakingModuleResume
  let index ← s.getStakingModuleIndexById stakingModuleId
  require ((s.stakingModules index).status = .depositsPaused) .stakingModuleNotPaused
  return s.setStatus index .active

/-! ## The cache of the modules -/

variable {ρ : Type} (callees : RouterCallees ε ρ) (world : ρ)

/-- `_loadStakingModulesCacheItem` -/
def loadStakingModulesCacheItem (stakingModuleIndex : Nat) :
    Call (RouterError ε) StakingModuleCache := do
  let stakingModuleData := s.stakingModules stakingModuleIndex
  let summary ← within .callee
    (callees.getStakingModuleSummary world stakingModuleData.stakingModuleAddress)
  let activeValidatorsCount ← checkedSub summary.totalDepositedValidators
    (max summary.totalExitedValidators stakingModuleData.exitedValidatorsCount)
  return {
    stakingModuleAddress := stakingModuleData.stakingModuleAddress
    stakingModuleId := stakingModuleData.id
    stakingModuleFee := stakingModuleData.stakingModuleFee
    treasuryFee := stakingModuleData.treasuryFee
    targetShare := stakingModuleData.targetShare
    status := stakingModuleData.status
    activeValidatorsCount := activeValidatorsCount
    availableValidatorsCount :=
      if stakingModuleData.status = .active then summary.depositableValidatorsCount else 0 }

/-- The loop of `_loadStakingModulesCache`, over the indices that are left. -/
def loadStakingModulesCacheLoop :
    List Nat → Nat → List StakingModuleCache → Call (RouterError ε) (Nat × List StakingModuleCache)
  | [], totalActiveValidators, stakingModulesCache =>
    return (totalActiveValidators, stakingModulesCache)
  | i :: is, totalActiveValidators, stakingModulesCache => do
    let item ← s.loadStakingModulesCacheItem callees world i
    let totalActiveValidators ← checkedAdd 256 totalActiveValidators item.activeValidatorsCount
    loadStakingModulesCacheLoop is totalActiveValidators (stakingModulesCache ++ [item])

/-- `_loadStakingModulesCache`: the active validators of all modules, and the cache. -/
def loadStakingModulesCache : Call (RouterError ε) (Nat × List StakingModuleCache) :=
  s.loadStakingModulesCacheLoop callees world (List.range s.stakingModulesCount) 0 []

end StakingRouter

end Catalist
