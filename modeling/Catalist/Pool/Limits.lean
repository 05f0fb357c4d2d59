import Catalist.AccessControl
import Catalist.Pool.SanityChecker

/-!
# The limits of the sanity checker

How `OracleReportSanityChecker.sol` keeps its limits: a packed list in storage, which managers
change limit by limit or as a whole. A limit is only checked when it changes, and an event tells its
new value.
-/

namespace Catalist

open Solidity Transition

/-- The whole `LimitsList`, with the limits that are not for accounting reports. -/
structure ReportLimits extends LimitsList where
  maxValidatorExitRequestsPerReport : Nat
  maxAccountingExtraDataListItemsCount : Nat
  maxNodeOperatorsPerExtraDataItemCount : Nat
deriving DecidableEq, Repr

structure LimitsListPacked where
  churnValidatorsPerDayLimit : BitVec 16
  oneOffCLBalanceDecreaseBPLimit : BitVec 16
  annualBalanceIncreaseBPLimit : BitVec 16
  simulatedShareRateDeviationBPLimit : BitVec 16
  maxValidatorExitRequestsPerReport : BitVec 16
  maxAccountingExtraDataListItemsCount : BitVec 16
  maxNodeOperatorsPerExtraDataItemCount : BitVec 16
  requestTimestampMargin : BitVec 64
  maxPositiveTokenRebase : BitVec 64
deriving DecidableEq, Repr

inductive LimitsError where
  | access (e : AccessControlError)
  | incorrectLimitValue (value minAllowedValue maxAllowedValue : Nat)
  /-- `"SafeCast: value doesn't fit in … bits"` -/
  | valueDoesNotFit (bits : Nat)
  /-- `"BASIS_POINTS_OVERFLOW"` -/
  | basisPointsOverflow
  | adminCannotBeZero
  | incorrectNumberOfExitRequestsPerReport (maxRequestsCount : Nat)
  | exitedValidatorsLimitExceeded (limitPerDay exitedPerDay : Nat)
  | tooManyNodeOpsPerExtraDataItem (itemIndex nodeOpsCount : Nat)
  | maxAccountingExtraDataItemsCountExceeded (maxItemsCount receivedItemsCount : Nat)
deriving DecidableEq, Repr

/-- The limits, in the order in which `_updateLimits` goes through them. -/
inductive ReportLimit where
  | churnValidatorsPerDayLimit
  | oneOffCLBalanceDecreaseBPLimit
  | annualBalanceIncreaseBPLimit
  | simulatedShareRateDeviationBPLimit
  | maxValidatorExitRequestsPerReport
  | maxAccountingExtraDataListItemsCount
  | maxNodeOperatorsPerExtraDataItemCount
  | requestTimestampMargin
  | maxPositiveTokenRebase
deriving DecidableEq, Repr

/-- A limit got a new value. There is an event for each of the limits. -/
structure ReportLimitSet where
  limit : ReportLimit
  value : Nat
deriving DecidableEq, Repr

namespace ReportLimit

def all : List ReportLimit :=
  [churnValidatorsPerDayLimit, oneOffCLBalanceDecreaseBPLimit, annualBalanceIncreaseBPLimit,
    simulatedShareRateDeviationBPLimit, maxValidatorExitRequestsPerReport,
    maxAccountingExtraDataListItemsCount, maxNodeOperatorsPerExtraDataItemCount,
    requestTimestampMargin, maxPositiveTokenRebase]

/-- The field of the limit. -/
def get (limits : ReportLimits) : ReportLimit → Nat
  | churnValidatorsPerDayLimit => limits.churnValidatorsPerDayLimit
  | oneOffCLBalanceDecreaseBPLimit => limits.oneOffCLBalanceDecreaseBPLimit
  | annualBalanceIncreaseBPLimit => limits.annualBalanceIncreaseBPLimit
  | simulatedShareRateDeviationBPLimit => limits.simulatedShareRateDeviationBPLimit
  | maxValidatorExitRequestsPerReport => limits.maxValidatorExitRequestsPerReport
  | maxAccountingExtraDataListItemsCount => limits.maxAccountingExtraDataListItemsCount
  | maxNodeOperatorsPerExtraDataItemCount => limits.maxNodeOperatorsPerExtraDataItemCount
  | requestTimestampMargin => limits.requestTimestampMargin
  | maxPositiveTokenRebase => limits.maxPositiveTokenRebase

/-- The limits with one field written. -/
def set (limits : ReportLimits) (value : Nat) : ReportLimit → ReportLimits
  | churnValidatorsPerDayLimit => { limits with churnValidatorsPerDayLimit := value }
  | oneOffCLBalanceDecreaseBPLimit => { limits with oneOffCLBalanceDecreaseBPLimit := value }
  | annualBalanceIncreaseBPLimit => { limits with annualBalanceIncreaseBPLimit := value }
  | simulatedShareRateDeviationBPLimit =>
    { limits with simulatedShareRateDeviationBPLimit := value }
  | maxValidatorExitRequestsPerReport => { limits with maxValidatorExitRequestsPerReport := value }
  | maxAccountingExtraDataListItemsCount =>
    { limits with maxAccountingExtraDataListItemsCount := value }
  | maxNodeOperatorsPerExtraDataItemCount =>
    { limits with maxNodeOperatorsPerExtraDataItemCount := value }
  | requestTimestampMargin => { limits with requestTimestampMargin := value }
  | maxPositiveTokenRebase => { limits with maxPositiveTokenRebase := value }

/-- The least value that `_updateLimits` lets through. -/
def minAllowedValue : ReportLimit → Nat
  | maxPositiveTokenRebase => 1
  | _ => 0

/-- The greatest value that `_updateLimits` lets through. -/
def maxAllowedValue : ReportLimit → Nat
  | oneOffCLBalanceDecreaseBPLimit | annualBalanceIncreaseBPLimit
  | simulatedShareRateDeviationBPLimit => MAX_BASIS_POINTS
  | requestTimestampMargin | maxPositiveTokenRebase => 2 ^ 64 - 1
  | _ => 2 ^ 16 - 1

/-- The name of the role that manages the limit. -/
def roleName : ReportLimit → String
  | churnValidatorsPerDayLimit => "CHURN_VALIDATORS_PER_DAY_LIMIT_MANAGER_ROLE"
  | oneOffCLBalanceDecreaseBPLimit => "ONE_OFF_CL_BALANCE_DECREASE_LIMIT_MANAGER_ROLE"
  | annualBalanceIncreaseBPLimit => "ANNUAL_BALANCE_INCREASE_LIMIT_MANAGER_ROLE"
  | simulatedShareRateDeviationBPLimit => "SHARE_RATE_DEVIATION_LIMIT_MANAGER_ROLE"
  | maxValidatorExitRequestsPerReport => "MAX_VALIDATOR_EXIT_REQUESTS_PER_REPORT_ROLE"
  | maxAccountingExtraDataListItemsCount => "MAX_ACCOUNTING_EXTRA_DATA_LIST_ITEMS_COUNT_ROLE"
  | maxNodeOperatorsPerExtraDataItemCount => "MAX_NODE_OPERATORS_PER_EXTRA_DATA_ITEM_COUNT_ROLE"
  | requestTimestampMargin => "REQUEST_TIMESTAMP_MARGIN_MANAGER_ROLE"
  | maxPositiveTokenRebase => "MAX_POSITIVE_TOKEN_REBASE_MANAGER_ROLE"

end ReportLimit

/-! ## Packing -/

/-- `SafeCast.toUint16` and `SafeCast.toUint64` -/
def toUint (bits value : Nat) : Call LimitsError (BitVec bits) := do
  require (value < 2 ^ bits) (.valueDoesNotFit bits)
  return BitVec.ofNat bits value

/-- `_toBasisPoints` -/
def toBasisPoints (value : Nat) : Call LimitsError (BitVec 16) := do
  require (value ≤ MAX_BASIS_POINTS) .basisPointsOverflow
  return BitVec.ofNat 16 value

def ReportLimits.pack (limits : ReportLimits) : Call LimitsError LimitsListPacked := do
  let churnValidatorsPerDayLimit ← toUint 16 limits.churnValidatorsPerDayLimit
  let oneOffCLBalanceDecreaseBPLimit ← toBasisPoints limits.oneOffCLBalanceDecreaseBPLimit
  let annualBalanceIncreaseBPLimit ← toBasisPoints limits.annualBalanceIncreaseBPLimit
  let simulatedShareRateDeviationBPLimit ← toBasisPoints limits.simulatedShareRateDeviationBPLimit
  let requestTimestampMargin ← toUint 64 limits.requestTimestampMargin
  let maxPositiveTokenRebase ← toUint 64 limits.maxPositiveTokenRebase
  let maxValidatorExitRequestsPerReport ← toUint 16 limits.maxValidatorExitRequestsPerReport
  let maxAccountingExtraDataListItemsCount ←
    toUint 16 limits.maxAccountingExtraDataListItemsCount
  let maxNodeOperatorsPerExtraDataItemCount ←
    toUint 16 limits.maxNodeOperatorsPerExtraDataItemCount
  return {
    churnValidatorsPerDayLimit, oneOffCLBalanceDecreaseBPLimit, annualBalanceIncreaseBPLimit,
    simulatedShareRateDeviationBPLimit, maxValidatorExitRequestsPerReport,
    maxAccountingExtraDataListItemsCount, maxNodeOperatorsPerExtraDataItemCount,
    requestTimestampMargin, maxPositiveTokenRebase }

def LimitsListPacked.unpack (packed : LimitsListPacked) : ReportLimits where
  churnValidatorsPerDayLimit := packed.churnValidatorsPerDayLimit.toNat
  oneOffCLBalanceDecreaseBPLimit := packed.oneOffCLBalanceDecreaseBPLimit.toNat
  annualBalanceIncreaseBPLimit := packed.annualBalanceIncreaseBPLimit.toNat
  simulatedShareRateDeviationBPLimit := packed.simulatedShareRateDeviationBPLimit.toNat
  requestTimestampMargin := packed.requestTimestampMargin.toNat
  maxPositiveTokenRebase := packed.maxPositiveTokenRebase.toNat
  maxValidatorExitRequestsPerReport := packed.maxValidatorExitRequestsPerReport.toNat
  maxAccountingExtraDataListItemsCount := packed.maxAccountingExtraDataListItemsCount.toNat
  maxNodeOperatorsPerExtraDataItemCount := packed.maxNodeOperatorsPerExtraDataItemCount.toNat

/-- The value may be given to the limit. -/
def ReportLimit.Allowed (limit : ReportLimit) (value : Nat) : Prop :=
  limit.minAllowedValue ≤ value ∧ value ≤ limit.maxAllowedValue

/-- No limit is greater than it may be. -/
def ReportLimits.Bounded (limits : ReportLimits) : Prop :=
  ∀ limit : ReportLimit, limit.get limits ≤ limit.maxAllowedValue

theorem ReportLimits.ext_get {limits limits' : ReportLimits}
    (h : ∀ limit : ReportLimit, limit.get limits = limit.get limits') : limits = limits' := by
  obtain ⟨⟨_, _, _, _, _, _⟩, _, _, _⟩ := limits
  obtain ⟨⟨_, _, _, _, _, _⟩, _, _, _⟩ := limits'
  simp only [ReportLimits.mk.injEq, LimitsList.mk.injEq]
  exact ⟨⟨h .churnValidatorsPerDayLimit, h .oneOffCLBalanceDecreaseBPLimit,
    h .annualBalanceIncreaseBPLimit, h .simulatedShareRateDeviationBPLimit,
    h .requestTimestampMargin, h .maxPositiveTokenRebase⟩, h .maxValidatorExitRequestsPerReport,
    h .maxAccountingExtraDataListItemsCount, h .maxNodeOperatorsPerExtraDataItemCount⟩

@[simp] theorem ReportLimit.get_set (limits : ReportLimits) (value : Nat)
    (limit limit' : ReportLimit) :
    limit'.get (limit.set limits value) = if limit' = limit then value else limit'.get limits := by
  cases limit <;> cases limit' <;> rfl

theorem ReportLimit.mem_all (limit : ReportLimit) : limit ∈ ReportLimit.all := by
  cases limit <;> decide

theorem toUint_of {bits value : Nat} (h : value < 2 ^ bits) :
    toUint bits value = .ok (BitVec.ofNat bits value) := by
  rw [toUint, require_of h]
  rfl

theorem toBasisPoints_of {value : Nat} (h : value ≤ MAX_BASIS_POINTS) :
    toBasisPoints value = .ok (BitVec.ofNat 16 value) := by
  rw [toBasisPoints, require_of h]
  rfl

/-- **Bounded limits are packed without loss.** -/
theorem ReportLimits.Bounded.pack {limits : ReportLimits} (h : limits.Bounded) :
    ∃ packed, limits.pack = .ok packed ∧ packed.unpack = limits := by
  have hchurn : limits.churnValidatorsPerDayLimit < 2 ^ 16 :=
    Nat.lt_of_le_pred (Nat.two_pow_pos 16) (h .churnValidatorsPerDayLimit)
  have hdecrease : limits.oneOffCLBalanceDecreaseBPLimit ≤ MAX_BASIS_POINTS :=
    h .oneOffCLBalanceDecreaseBPLimit
  have hincrease : limits.annualBalanceIncreaseBPLimit ≤ MAX_BASIS_POINTS :=
    h .annualBalanceIncreaseBPLimit
  have hdeviation : limits.simulatedShareRateDeviationBPLimit ≤ MAX_BASIS_POINTS :=
    h .simulatedShareRateDeviationBPLimit
  have hrequests : limits.maxValidatorExitRequestsPerReport < 2 ^ 16 :=
    Nat.lt_of_le_pred (Nat.two_pow_pos 16) (h .maxValidatorExitRequestsPerReport)
  have hitems : limits.maxAccountingExtraDataListItemsCount < 2 ^ 16 :=
    Nat.lt_of_le_pred (Nat.two_pow_pos 16) (h .maxAccountingExtraDataListItemsCount)
  have hoperators : limits.maxNodeOperatorsPerExtraDataItemCount < 2 ^ 16 :=
    Nat.lt_of_le_pred (Nat.two_pow_pos 16) (h .maxNodeOperatorsPerExtraDataItemCount)
  have hmargin : limits.requestTimestampMargin < 2 ^ 64 :=
    Nat.lt_of_le_pred (Nat.two_pow_pos 64) (h .requestTimestampMargin)
  have hrebase : limits.maxPositiveTokenRebase < 2 ^ 64 :=
    Nat.lt_of_le_pred (Nat.two_pow_pos 64) (h .maxPositiveTokenRebase)
  have hpacked : limits.pack = .ok
      ⟨BitVec.ofNat 16 limits.churnValidatorsPerDayLimit,
        BitVec.ofNat 16 limits.oneOffCLBalanceDecreaseBPLimit,
        BitVec.ofNat 16 limits.annualBalanceIncreaseBPLimit,
        BitVec.ofNat 16 limits.simulatedShareRateDeviationBPLimit,
        BitVec.ofNat 16 limits.maxValidatorExitRequestsPerReport,
        BitVec.ofNat 16 limits.maxAccountingExtraDataListItemsCount,
        BitVec.ofNat 16 limits.maxNodeOperatorsPerExtraDataItemCount,
        BitVec.ofNat 64 limits.requestTimestampMargin,
        BitVec.ofNat 64 limits.maxPositiveTokenRebase⟩ := by
    simp only [ReportLimits.pack, toBasisPoints_of hdecrease, toBasisPoints_of hincrease,
      toBasisPoints_of hdeviation, toUint_of hchurn, toUint_of hrequests, toUint_of hitems,
      toUint_of hoperators, toUint_of hmargin, toUint_of hrebase, ok_bind]
    rfl
  refine ⟨_, hpacked, ReportLimits.ext_get fun limit => ?_⟩
  rw [MAX_BASIS_POINTS] at hdecrease hincrease hdeviation
  cases limit <;>
    simp only [ReportLimit.get, LimitsListPacked.unpack, BitVec.toNat_ofNat] <;>
    exact Nat.mod_eq_of_lt (by omega)

/-! ## The contract -/

/-- The storage, with the events that were emitted. -/
structure OracleReportSanityChecker where
  access : AccessControl
  limits : LimitsListPacked
  emitted : List ReportLimitSet

/-- The accounts that are given the roles when the contract is deployed. -/
structure ManagersRoster where
  allLimitsManagers : List Address
  churnValidatorsPerDayLimitManagers : List Address
  oneOffCLBalanceDecreaseLimitManagers : List Address
  annualBalanceIncreaseLimitManagers : List Address
  shareRateDeviationLimitManagers : List Address
  maxValidatorExitRequestsPerReportManagers : List Address
  maxAccountingExtraDataListItemsCountManagers : List Address
  maxNodeOperatorsPerExtraDataItemCountManagers : List Address
  requestTimestampMarginManagers : List Address
  maxPositiveTokenRebaseManagers : List Address

/-- `_checkLimitValue` -/
def checkLimitValue (value minAllowedValue maxAllowedValue : Nat) : Call LimitsError Unit :=
  require (¬ (maxAllowedValue < value ∨ value < minAllowedValue))
    (.incorrectLimitValue value minAllowedValue maxAllowedValue)

/-- What `_updateLimits` does for one limit. -/
def updateLimit (oldLimitsList newLimitsList : ReportLimits) (limit : ReportLimit) :
    Call LimitsError (List ReportLimitSet) := do
  if limit.get oldLimitsList ≠ limit.get newLimitsList then do
    checkLimitValue (limit.get newLimitsList) limit.minAllowedValue limit.maxAllowedValue
    return [⟨limit, limit.get newLimitsList⟩]
  else return []

/-- The events of `_updateLimits`, for the limits in turn. -/
def updateEach (oldLimitsList newLimitsList : ReportLimits) :
    List ReportLimit → Call LimitsError (List ReportLimitSet)
  | [] => return []
  | limit :: limits => do
    let event ← updateLimit oldLimitsList newLimitsList limit
    let events ← updateEach oldLimitsList newLimitsList limits
    return event ++ events

namespace OracleReportSanityChecker

variable (roleHash : String → Role)

/-- `keccak256` of the names of the roles -/
def limitRole (limit : ReportLimit) : Role := roleHash limit.roleName

def ALL_LIMITS_MANAGER_ROLE : Role := roleHash "ALL_LIMITS_MANAGER_ROLE"

variable (s : OracleReportSanityChecker)

def getOracleReportLimits : ReportLimits := s.limits.unpack

def getMaxPositiveTokenRebase : Nat := s.limits.maxPositiveTokenRebase.toNat

/-- `_updateLimits` -/
def updateLimits (newLimitsList : ReportLimits) : Call LimitsError OracleReportSanityChecker := do
  let oldLimitsList := s.limits.unpack
  let events ← updateEach oldLimitsList newLimitsList ReportLimit.all
  let limits ← newLimitsList.pack
  return { s with limits := limits, emitted := s.emitted ++ events }

/-- `_grantRole` for all the accounts of the roster, after `DEFAULT_ADMIN_ROLE` -/
def grants (admin : Address) (roster : ManagersRoster) : List (Role × Address) :=
  (AccessControl.DEFAULT_ADMIN_ROLE, admin) ::
    (roster.allLimitsManagers.map (ALL_LIMITS_MANAGER_ROLE roleHash, ·) ++
    roster.churnValidatorsPerDayLimitManagers.map
      (limitRole roleHash .churnValidatorsPerDayLimit, ·) ++
    roster.oneOffCLBalanceDecreaseLimitManagers.map
      (limitRole roleHash .oneOffCLBalanceDecreaseBPLimit, ·) ++
    roster.annualBalanceIncreaseLimitManagers.map
      (limitRole roleHash .annualBalanceIncreaseBPLimit, ·) ++
    roster.maxPositiveTokenRebaseManagers.map
      (limitRole roleHash .maxPositiveTokenRebase, ·) ++
    roster.maxValidatorExitRequestsPerReportManagers.map
      (limitRole roleHash .maxValidatorExitRequestsPerReport, ·) ++
    roster.maxAccountingExtraDataListItemsCountManagers.map
      (limitRole roleHash .maxAccountingExtraDataListItemsCount, ·) ++
    roster.maxNodeOperatorsPerExtraDataItemCountManagers.map
      (limitRole roleHash .maxNodeOperatorsPerExtraDataItemCount, ·) ++
    roster.shareRateDeviationLimitManagers.map
      (limitRole roleHash .simulatedShareRateDeviationBPLimit, ·) ++
    roster.requestTimestampMarginManagers.map
      (limitRole roleHash .requestTimestampMargin, ·))

/-- The storage before the constructor. -/
def blank : OracleReportSanityChecker where
  access := .blank
  limits := ⟨0, 0, 0, 0, 0, 0, 0, 0, 0⟩
  emitted := []

/-- The constructor. -/
def deploy (admin : Address) (limitsList : ReportLimits) (roster : ManagersRoster) :
    Call LimitsError OracleReportSanityChecker := do
  require (admin ≠ 0) .adminCannotBeZero
  let s ← blank.updateLimits limitsList
  return { s with access := s.access.setupRoles (grants roleHash admin roster) }

def setOracleReportLimits (env : Env) (limitsList : ReportLimits) :
    Call LimitsError OracleReportSanityChecker := do
  within .access (s.access.checkRole (ALL_LIMITS_MANAGER_ROLE roleHash) env.sender)
  s.updateLimits limitsList

/-- What the setters of the limits do. -/
def setLimit (limit : ReportLimit) (env : Env) (value : Nat) :
    Call LimitsError OracleReportSanityChecker := do
  within .access (s.access.checkRole (limitRole roleHash limit) env.sender)
  s.updateLimits (limit.set s.limits.unpack value)

def setChurnValidatorsPerDayLimit := s.setLimit roleHash .churnValidatorsPerDayLimit

def setOneOffCLBalanceDecreaseBPLimit := s.setLimit roleHash .oneOffCLBalanceDecreaseBPLimit

def setAnnualBalanceIncreaseBPLimit := s.setLimit roleHash .annualBalanceIncreaseBPLimit

def setSimulatedShareRateDeviationBPLimit :=
  s.setLimit roleHash .simulatedShareRateDeviationBPLimit

def setMaxExitRequestsPerOracleReport := s.setLimit roleHash .maxValidatorExitRequestsPerReport

def setRequestTimestampMargin := s.setLimit roleHash .requestTimestampMargin

def setMaxPositiveTokenRebase := s.setLimit roleHash .maxPositiveTokenRebase

def setMaxAccountingExtraDataListItemsCount :=
  s.setLimit roleHash .maxAccountingExtraDataListItemsCount

def setMaxNodeOperatorsPerExtraDataItemCount :=
  s.setLimit roleHash .maxNodeOperatorsPerExtraDataItemCount

/-- The calls that change the storage. -/
inductive LimitsCall where
  | setOracleReportLimits (env : Env) (limitsList : ReportLimits)
  | setLimit (limit : ReportLimit) (env : Env) (value : Nat)
  | role (call : AccessControl.RoleCall)

def run : LimitsCall → Call LimitsError OracleReportSanityChecker
  | .setOracleReportLimits env limitsList => s.setOracleReportLimits roleHash env limitsList
  | .setLimit .churnValidatorsPerDayLimit env value =>
    s.setChurnValidatorsPerDayLimit roleHash env value
  | .setLimit .oneOffCLBalanceDecreaseBPLimit env value =>
    s.setOneOffCLBalanceDecreaseBPLimit roleHash env value
  | .setLimit .annualBalanceIncreaseBPLimit env value =>
    s.setAnnualBalanceIncreaseBPLimit roleHash env value
  | .setLimit .simulatedShareRateDeviationBPLimit env value =>
    s.setSimulatedShareRateDeviationBPLimit roleHash env value
  | .setLimit .maxValidatorExitRequestsPerReport env value =>
    s.setMaxExitRequestsPerOracleReport roleHash env value
  | .setLimit .maxAccountingExtraDataListItemsCount env value =>
    s.setMaxAccountingExtraDataListItemsCount roleHash env value
  | .setLimit .maxNodeOperatorsPerExtraDataItemCount env value =>
    s.setMaxNodeOperatorsPerExtraDataItemCount roleHash env value
  | .setLimit .requestTimestampMargin env value => s.setRequestTimestampMargin roleHash env value
  | .setLimit .maxPositiveTokenRebase env value => s.setMaxPositiveTokenRebase roleHash env value
  | .role call => do
    let access ← within .access (s.access.run call)
    return { s with access := access }

/-! ## The checks of the oracles -/

def checkExitBusOracleReport (exitRequestsCount : Nat) : Call LimitsError Unit :=
  let limit := s.limits.unpack.maxValidatorExitRequestsPerReport
  require (exitRequestsCount ≤ limit) (.incorrectNumberOfExitRequestsPerReport limit)

def checkExitedValidatorsRatePerDay (exitedValidatorsCount : Nat) : Call LimitsError Unit :=
  let limit := s.limits.unpack.churnValidatorsPerDayLimit
  require (exitedValidatorsCount ≤ limit)
    (.exitedValidatorsLimitExceeded limit exitedValidatorsCount)

def checkNodeOperatorsPerExtraDataItemCount (itemIndex nodeOperatorsCount : Nat) :
    Call LimitsError Unit :=
  let limit := s.limits.unpack.maxNodeOperatorsPerExtraDataItemCount
  require (nodeOperatorsCount ≤ limit) (.tooManyNodeOpsPerExtraDataItem itemIndex nodeOperatorsCount)

def checkAccountingExtraDataListItemsCount (extraDataListItemsCount : Nat) :
    Call LimitsError Unit :=
  let limit := s.limits.unpack.maxAccountingExtraDataListItemsCount
  require (extraDataListItemsCount ≤ limit)
    (.maxAccountingExtraDataItemsCountExceeded limit extraDataListItemsCount)

/-! ## Updates -/

/-- The events for the limits that differ. -/
def changes (oldLimitsList newLimitsList : ReportLimits) (limits : List ReportLimit) :
    List ReportLimitSet :=
  (limits.filter fun limit => limit.get oldLimitsList ≠ limit.get newLimitsList).map fun limit =>
    ⟨limit, limit.get newLimitsList⟩

/-- The limits that are known from events. -/
def replay (limits : ReportLimits) (events : List ReportLimitSet) : ReportLimits :=
  events.foldl (fun limits event => event.limit.set limits event.value) limits

variable {roleHash} {s} {s' s₀ : OracleReportSanityChecker} {old new : ReportLimits}
  {limits : List ReportLimit} {events : List ReportLimitSet} {call : LimitsCall}
  {w : Recorded OracleReportSanityChecker LimitsCall}

theorem updateEach_eq_ok :
    updateEach old new limits = .ok events ↔
      (∀ limit ∈ limits, limit.get new = limit.get old ∨ limit.Allowed (limit.get new)) ∧
        events = changes old new limits := by
  induction limits generalizing events with
  | nil =>
    simp only [updateEach, pure_eq_ok, changes, List.filter_nil, List.map_nil, List.not_mem_nil,
      false_imp_iff, implies_true, true_and]
    exact eq_comm
  | cons limit limits ih =>
    simp only [updateEach, bind_eq_ok, ih, pure_eq_ok, List.forall_mem_cons]
    by_cases hsame : limit.get old = limit.get new
    · simp only [updateLimit, ne_eq, hsame, not_true, if_false, pure_eq_ok, changes, true_or,
        true_and, List.filter_cons, decide_false, Bool.false_eq_true]
      constructor
      · rintro ⟨_, rfl, _, ⟨hrest, rfl⟩, rfl⟩
        exact ⟨hrest, rfl⟩
      · rintro ⟨hrest, rfl⟩
        exact ⟨[], rfl, _, ⟨hrest, rfl⟩, rfl⟩
    · simp only [updateLimit, ne_eq, hsame, not_false_iff, if_true, checkLimitValue, bind_eq_ok,
        require_eq_ok, pure_eq_ok, changes, Ne.symm hsame, false_or, List.filter_cons,
        decide_true, List.map_cons, ReportLimit.Allowed, not_or, not_lt]
      constructor
      · rintro ⟨_, ⟨_, ⟨hmax, hmin⟩, rfl⟩, _, ⟨hrest, rfl⟩, rfl⟩
        exact ⟨⟨⟨hmin, hmax⟩, hrest⟩, rfl⟩
      · rintro ⟨⟨⟨hmin, hmax⟩, hrest⟩, rfl⟩
        exact ⟨_, ⟨(), ⟨hmax, hmin⟩, rfl⟩, _, ⟨hrest, rfl⟩, rfl⟩

theorem replay_append (more : List ReportLimitSet) :
    replay old (events ++ more) = replay (replay old events) more :=
  List.foldl_append

/-- The events of an update, replayed. -/
theorem get_replay_changes (told : ReportLimits) (limit : ReportLimit) :
    limit.get (replay told (changes old new limits)) =
      if limit ∈ limits ∧ limit.get old ≠ limit.get new then limit.get new
      else limit.get told := by
  induction limits generalizing told with
  | nil => simp [changes, replay]
  | cons first limits ih =>
    by_cases hsame : first.get old = first.get new
    · have hskip : changes old new (first :: limits) = changes old new limits := by
        simp [changes, hsame]
      rw [hskip, ih]
      by_cases heq : limit = first
      · subst heq
        simp [hsame]
      · simp [heq]
    · have hmore : changes old new (first :: limits)
          = ⟨first, first.get new⟩ :: changes old new limits := by
        simp [changes, hsame]
      rw [hmore]
      change limit.get (replay (first.set told (first.get new)) (changes old new limits)) = _
      rw [ih, ReportLimit.get_set]
      by_cases heq : limit = first
      · subst heq
        simp [hsame]
      · simp [heq]

theorem replay_changes : replay old (changes old new ReportLimit.all) = new := by
  refine ReportLimits.ext_get fun limit => ?_
  rw [get_replay_changes]
  by_cases hsame : limit.get old = limit.get new
  · simp [hsame]
  · simp [hsame, limit.mem_all]

/-- What an update does. -/
structure Updated (s : OracleReportSanityChecker) (newLimitsList : ReportLimits)
    (s' : OracleReportSanityChecker) : Prop where
  access : s'.access = s.access
  limits : s'.limits.unpack = newLimitsList
  emitted : s'.emitted = s.emitted ++ changes s.limits.unpack newLimitsList ReportLimit.all

/-- The update leads to limits that were there before or may be given. -/
def Acceptable (s : OracleReportSanityChecker) (newLimitsList : ReportLimits) : Prop :=
  ∀ limit : ReportLimit, limit.get newLimitsList = limit.get s.limits.unpack ∨
    limit.Allowed (limit.get newLimitsList)

theorem Acceptable.bounded (h : Acceptable s new) (hbounded : s.limits.unpack.Bounded) :
    new.Bounded := by
  intro limit
  rcases h limit with hsame | hallowed
  · rw [hsame]
    exact hbounded limit
  · exact hallowed.2

/-- **An update succeeds exactly if it is acceptable**; packing never fails. -/
theorem updateLimits_of (hbounded : s.limits.unpack.Bounded) (new : ReportLimits) :
    ((∃ s', s.updateLimits new = .ok s') ↔ Acceptable s new) ∧
      ∀ s', s.updateLimits new = .ok s' → Acceptable s new ∧ Updated s new s' := by
  have hafter : ∀ s', s.updateLimits new = .ok s' → Acceptable s new ∧ Updated s new s' := by
    intro s' h
    simp only [updateLimits, bind_eq_ok, updateEach_eq_ok, pure_eq_ok] at h
    obtain ⟨_, ⟨hall, rfl⟩, packed, hpack, rfl⟩ := h
    have hacceptable : Acceptable s new := fun limit => hall limit limit.mem_all
    obtain ⟨packed', hpack', hunpack⟩ := (hacceptable.bounded hbounded).pack
    rw [hpack] at hpack'
    cases hpack'
    exact ⟨hacceptable, rfl, hunpack, rfl⟩
  refine ⟨⟨?_, fun hacceptable => ?_⟩, hafter⟩
  · rintro ⟨s', h⟩
    exact (hafter s' h).1
  · obtain ⟨packed, hpack, -⟩ := (hacceptable.bounded hbounded).pack
    simp only [updateLimits, bind_eq_ok, updateEach_eq_ok, pure_eq_ok]
    exact ⟨_, _, ⟨fun limit _ => hacceptable limit, rfl⟩, packed, hpack, rfl⟩

/-! ## What the calls do -/

/-- The limits that a call asks for. -/
def LimitsCall.asked (current : ReportLimits) : LimitsCall → ReportLimits
  | .setOracleReportLimits _ limitsList => limitsList
  | .setLimit limit _ value => limit.set current value
  | .role _ => current

/-- The sender may make the call. -/
def LimitsCall.Permitted (roleHash : String → Role) (s : OracleReportSanityChecker) :
    LimitsCall → Prop
  | .setOracleReportLimits env _ =>
    s.access.hasRole (ALL_LIMITS_MANAGER_ROLE roleHash) env.sender = true
  | .setLimit limit env _ => s.access.hasRole (limitRole roleHash limit) env.sender = true
  | .role call => call.Permitted s.access

/-- A contract after its deployment. -/
def Deployed (roleHash : String → Role) (s : OracleReportSanityChecker) : Prop :=
  ∃ admin limitsList roster, deploy roleHash admin limitsList roster = .ok s

/-- The limits are those that the events tell, and each event told an allowed value. -/
structure Told (s : OracleReportSanityChecker) : Prop where
  enumerated : s.access.Enumerated
  bounded : s.limits.unpack.Bounded
  replayed : replay blank.limits.unpack s.emitted = s.limits.unpack
  allowed : ∀ event ∈ s.emitted, event.limit.Allowed event.value

theorem allowed_changes (h : Acceptable s new) :
    ∀ event ∈ changes s.limits.unpack new ReportLimit.all, event.limit.Allowed event.value := by
  intro event hevent
  obtain ⟨limit, hlimit, rfl⟩ := List.mem_map.mp hevent
  have hdiffers := of_decide_eq_true (List.mem_filter.mp hlimit).2
  exact (h limit).resolve_left (Ne.symm hdiffers)

theorem Told.updated (h : Told s) (hacceptable : Acceptable s new) (hs : Updated s new s') :
    Told s' where
  enumerated := by
    rw [hs.access]
    exact h.enumerated
  bounded := by
    rw [hs.limits]
    exact hacceptable.bounded h.bounded
  replayed := by
    rw [hs.emitted, replay_append, h.replayed, hs.limits]
    exact replay_changes
  allowed := by
    intro event hevent
    rw [hs.emitted] at hevent
    rcases List.mem_append.mp hevent with hbefore | hnow
    · exact h.allowed event hbefore
    · exact allowed_changes hacceptable event hnow

theorem told_blank : Told blank where
  enumerated := AccessControl.enumerated_blank
  bounded := by
    intro limit
    cases limit <;> exact Nat.zero_le _
  replayed := rfl
  allowed event hevent := absurd hevent List.not_mem_nil

theorem Deployed.told (h : Deployed roleHash s) : Told s := by
  obtain ⟨admin, limitsList, roster, h⟩ := h
  simp only [deploy, bind_eq_ok, require_eq_ok, pure_eq_ok] at h
  obtain ⟨_, -, s₁, hupdate, rfl⟩ := h
  obtain ⟨hacceptable, hupdated⟩ := (updateLimits_of told_blank.bounded limitsList).2 s₁ hupdate
  have htold := told_blank.updated hacceptable hupdated
  exact ⟨htold.enumerated.setupRoles _, htold.bounded, htold.replayed, htold.allowed⟩

theorem run_setLimit (limit : ReportLimit) (env : Env) (value : Nat) :
    s.run roleHash (.setLimit limit env value) = s.setLimit roleHash limit env value := by
  cases limit <;> rfl

/-- What an update does after the role of its sender was checked. -/
theorem Told.managed (h : Told s) {role : Role} {account : Address} :
    ((∃ s', (within LimitsError.access (s.access.checkRole role account) >>= fun _ =>
        s.updateLimits new) = .ok s') ↔
      s.access.hasRole role account = true ∧ Acceptable s new) ∧
    ∀ s', (within LimitsError.access (s.access.checkRole role account) >>= fun _ =>
        s.updateLimits new) = .ok s' → Told s' ∧ s'.limits.unpack = new := by
  obtain ⟨hiff, hafter⟩ := updateLimits_of h.bounded new
  simp only [bind_eq_ok, within_eq_ok, AccessControl.checkRole, require_eq_ok]
  constructor
  · rw [← hiff]
    constructor
    · rintro ⟨s', _, hrole, hs⟩
      exact ⟨hrole, s', hs⟩
    · rintro ⟨hrole, s', hs⟩
      exact ⟨s', (), hrole, hs⟩
  · rintro s' ⟨_, -, hs⟩
    obtain ⟨hacceptable, hupdated⟩ := hafter s' hs
    exact ⟨h.updated hacceptable hupdated, hupdated.limits⟩

theorem Told.run (h : Told s) (roleHash : String → Role) (call : LimitsCall) :
    ((∃ s', s.run roleHash call = .ok s') ↔
      call.Permitted roleHash s ∧ Acceptable s (call.asked s.limits.unpack)) ∧
    ∀ s', s.run roleHash call = .ok s' →
      Told s' ∧ s'.limits.unpack = call.asked s.limits.unpack := by
  cases call with
  | setOracleReportLimits env limitsList => exact h.managed
  | setLimit limit env value =>
    rw [run_setLimit]
    exact h.managed
  | role call =>
    obtain ⟨hiff, hafter⟩ := @AccessControl.Enumerated.run s.access call h.enumerated
    simp only [OracleReportSanityChecker.run, bind_eq_ok, within_eq_ok, pure_eq_ok,
      LimitsCall.Permitted, LimitsCall.asked]
    constructor
    · rw [← hiff]
      constructor
      · rintro ⟨_, access, haccess, -⟩
        exact ⟨⟨access, haccess⟩, fun limit => .inl rfl⟩
      · rintro ⟨⟨access, haccess⟩, -⟩
        exact ⟨_, access, haccess, rfl⟩
    · rintro s' ⟨access, haccess, rfl⟩
      exact ⟨⟨(hafter access haccess).enumerated, h.bounded, h.replayed, h.allowed⟩, rfl⟩

/-! ## Runs -/

/-- The steps of a run, recorded with the calls. -/
def Performs (roleHash : String → Role) (s : OracleReportSanityChecker) (call : LimitsCall)
    (s' : OracleReportSanityChecker) : Prop :=
  s.run roleHash call = .ok s'

/-- The runs of a contract from its deployment on. -/
abbrev LimitsRun (roleHash : String → Role) (s₀ : OracleReportSanityChecker)
    (w : Recorded OracleReportSanityChecker LimitsCall) : Prop :=
  Reachable (· = ⟨s₀, []⟩) (Recorded.Acts (Performs roleHash)) w

theorem told_of_run (hdeployed : Deployed roleHash s₀) (h : LimitsRun roleHash s₀ w) :
    Told w.state := by
  have hinit : ∀ w : Recorded OracleReportSanityChecker LimitsCall, w = ⟨s₀, []⟩ →
      Told w.state := by
    rintro _ rfl
    exact hdeployed.told
  refine h.invariant hinit fun w w' hw hs => ?_
  obtain ⟨hperforms⟩ := hs
  exact ((hw.run roleHash _).2 _ hperforms).1

/--
**The limits change exactly as the managers ask.** In every run, a call succeeds if and only if its
sender may make it and every limit it asks for is the current one or in the range of that limit; the
limits that are read afterwards are the ones asked for. So storing them never fails and never loses
anything.
-/
theorem limits_exact (hdeployed : Deployed roleHash s₀) (h : LimitsRun roleHash s₀ w)
    (call : LimitsCall) :
    ((∃ s', w.state.run roleHash call = .ok s') ↔ call.Permitted roleHash w.state ∧
      ∀ limit : ReportLimit,
        limit.get (call.asked w.state.getOracleReportLimits)
          = limit.get w.state.getOracleReportLimits ∨
        limit.Allowed (limit.get (call.asked w.state.getOracleReportLimits))) ∧
    ∀ s', w.state.run roleHash call = .ok s' →
      s'.getOracleReportLimits = call.asked w.state.getOracleReportLimits := by
  obtain ⟨hiff, hafter⟩ := (told_of_run hdeployed h).run roleHash call
  exact ⟨hiff, fun s' hs => (hafter s' hs).2⟩

/-- At this moment a manager gives the limit a value. -/
def Gives (roleHash : String → Role) (limit : ReportLimit) (value : Nat)
    (m : Moment OracleReportSanityChecker LimitsCall) : Prop :=
  (∃ env, m.action = .setLimit limit env value ∧
    m.before.access.hasRole (limitRole roleHash limit) env.sender = true) ∨
  ∃ env limitsList, m.action = .setOracleReportLimits env limitsList ∧
    limit.get limitsList = value ∧
    m.before.access.hasRole (ALL_LIMITS_MANAGER_ROLE roleHash) env.sender = true

/-- At this moment the limit is left as it is. -/
def Leaves (roleHash : String → Role) (limit : ReportLimit)
    (m : Moment OracleReportSanityChecker LimitsCall) : Prop :=
  ∀ value, ¬ Gives roleHash limit value m

theorem Told.get_of_performs (h : Told s) (hs : Performs roleHash s call s')
    (limit : ReportLimit) :
    Gives roleHash limit (limit.get s'.getOracleReportLimits) ⟨s, call, s'⟩ ∨
      Leaves roleHash limit ⟨s, call, s'⟩ ∧
        limit.get s'.getOracleReportLimits = limit.get s.getOracleReportLimits := by
  have hpermitted := ((h.run roleHash call).1.mp ⟨s', hs⟩).1
  have hasked := ((h.run roleHash call).2 s' hs).2
  rw [getOracleReportLimits, hasked]
  cases call with
  | setOracleReportLimits env limitsList =>
    exact .inl (.inr ⟨env, limitsList, rfl, rfl, hpermitted⟩)
  | setLimit limit' env value =>
    by_cases heq : limit = limit'
    · subst heq
      refine .inl (.inl ⟨env, ?_, hpermitted⟩)
      simp [LimitsCall.asked]
    · refine .inr ⟨?_, by simp [LimitsCall.asked, heq, getOracleReportLimits]⟩
      rintro value' (⟨env', hcall, -⟩ | ⟨env', limitsList, hcall, -⟩)
      · cases hcall
        exact heq rfl
      · cases hcall
  | role call =>
    refine .inr ⟨?_, rfl⟩
    rintro value' (⟨env', hcall, -⟩ | ⟨env', limitsList, hcall, -⟩)
    · cases hcall
    · cases hcall

/-- A value that is given to a limit is the only one. -/
theorem Gives.unique {limit : ReportLimit} {value value' : Nat}
    {m : Moment OracleReportSanityChecker LimitsCall} (h : Gives roleHash limit value m)
    (h' : Gives roleHash limit value' m) : value = value' := by
  rcases h with ⟨env, hcall, -⟩ | ⟨env, limitsList, hcall, rfl, -⟩
  · rcases h' with ⟨env', hcall', -⟩ | ⟨env', limitsList', hcall', -⟩
    · cases hcall.symm.trans hcall'
      rfl
    · cases hcall.symm.trans hcall'
  · rcases h' with ⟨env', hcall', -⟩ | ⟨env', limitsList', hcall', rfl, -⟩
    · cases hcall.symm.trans hcall'
    · cases hcall.symm.trans hcall'
      rfl

theorem get_of_run (hdeployed : Deployed roleHash s₀) (h : LimitsRun roleHash s₀ w)
    (limit : ReportLimit) (value : Nat) :
    limit.get w.state.getOracleReportLimits = value ↔
      (limit.get s₀.getOracleReportLimits = value ∧ ∀ m ∈ w.history, Leaves roleHash limit m) ∨
        Since (Gives roleHash limit value) (Leaves roleHash limit) w.history := by
  induction h with
  | init heq =>
    subst heq
    constructor
    · exact fun hvalue => .inl ⟨hvalue, fun m hm => absurd hm List.not_mem_nil⟩
    · rintro (⟨hvalue, -⟩ | ⟨past, m, later, hnil, -⟩)
      · exact hvalue
      · exact absurd hnil.symm (by simp)
  | @step w w' hw hs ih =>
    obtain ⟨hperforms⟩ := hs
    rw [Recorded.record, since_concat_iff]
    simp only [List.mem_append, List.mem_singleton]
    rcases (told_of_run hdeployed hw).get_of_performs hperforms limit with
      hgives | ⟨hleaves, hsame⟩
    · constructor
      · rintro rfl
        exact .inr (.inl hgives)
      · rintro (⟨-, hall⟩ | hgiven | ⟨-, hleaves⟩)
        · exact absurd hgives (hall _ (.inr rfl) _)
        · exact hgives.unique hgiven
        · exact absurd hgives (hleaves _)
    · rw [hsame, ih]
      constructor
      · rintro (⟨hfirst, hall⟩ | hsince)
        · refine .inl ⟨hfirst, fun m hm => ?_⟩
          rcases hm with hm | rfl
          · exact hall m hm
          · exact hleaves
        · exact .inr (.inr ⟨hsince, hleaves⟩)
      · rintro (⟨hfirst, hall⟩ | hgiven | ⟨hsince, -⟩)
        · exact .inl ⟨hfirst, fun m hm => hall m (.inl hm)⟩
        · exact absurd hgiven (hleaves _)
        · exact .inr hsince

/-- A replayed limit has the value of one of its events, or there was none. -/
theorem get_replay (old : ReportLimits) (events : List ReportLimitSet) (limit : ReportLimit) :
    (∃ event ∈ events, event.limit = limit ∧ limit.get (replay old events) = event.value) ∨
      (∀ event ∈ events, event.limit ≠ limit) ∧ limit.get (replay old events) = limit.get old := by
  induction events using List.reverseRecOn with
  | nil => exact .inr ⟨fun event hevent => absurd hevent List.not_mem_nil, rfl⟩
  | append_singleton events last ih =>
    rw [replay_append, replay, List.foldl_cons, List.foldl_nil, ReportLimit.get_set]
    by_cases heq : limit = last.limit
    · rw [if_pos heq]
      exact .inl ⟨last, by simp, heq.symm, rfl⟩
    · rw [if_neg heq]
      rcases ih with ⟨event, hevent, hlimit, hvalue⟩ | ⟨hnone, hvalue⟩
      · exact .inl ⟨event, List.mem_append_left _ hevent, hlimit, hvalue⟩
      · refine .inr ⟨fun event hevent => ?_, hvalue⟩
        rcases List.mem_append.mp hevent with hevent | hevent
        · exact hnone event hevent
        · rw [List.mem_singleton.mp hevent]
          exact Ne.symm heq

/-- The limits for accounting reports are admitted once there was an event for the last of them. -/
theorem Told.admitted_iff (h : Told s) :
    s.getOracleReportLimits.toLimitsList.Admitted ↔
      ∃ event ∈ s.emitted, event.limit = .maxPositiveTokenRebase := by
  have hbounded := h.bounded
  rcases get_replay blank.limits.unpack s.emitted .maxPositiveTokenRebase with
    ⟨event, hevent, hlimit, hvalue⟩ | ⟨hnone, hvalue⟩
  · refine iff_of_true ?_ ⟨event, hevent, hlimit⟩
    have hallowed := (h.allowed event hevent).1
    rw [hlimit, ← hvalue, h.replayed] at hallowed
    exact ⟨Nat.lt_of_le_pred (Nat.two_pow_pos 16) (hbounded .churnValidatorsPerDayLimit),
      hbounded .oneOffCLBalanceDecreaseBPLimit, hbounded .annualBalanceIncreaseBPLimit,
      hbounded .simulatedShareRateDeviationBPLimit,
      Nat.lt_of_le_pred (Nat.two_pow_pos 64) (hbounded .requestTimestampMargin), hallowed,
      Nat.lt_of_le_pred (Nat.two_pow_pos 64) (hbounded .maxPositiveTokenRebase)⟩
  · rw [h.replayed] at hvalue
    have hzero : s.getOracleReportLimits.maxPositiveTokenRebase = 0 := hvalue
    constructor
    · intro hadmitted
      have hpos := hadmitted.rebase_pos
      omega
    · rintro ⟨event, hevent, hlimit⟩
      exact absurd hlimit (hnone event hevent)

/--
**The limits are the values that managers gave last, and that the events tell.** In every run, a
limit has a value if and only if a manager gave it that value and none gave it one since, or it has
it from the deployment on. Replaying all the events leads to the limits. They are admitted for
accounting reports if and only if there was an event for `maxPositiveTokenRebase`.
-/
theorem limits_told (hdeployed : Deployed roleHash s₀) (h : LimitsRun roleHash s₀ w) :
    (∀ limit value, limit.get w.state.getOracleReportLimits = value ↔
      (limit.get s₀.getOracleReportLimits = value ∧ ∀ m ∈ w.history, Leaves roleHash limit m) ∨
        Since (Gives roleHash limit value) (Leaves roleHash limit) w.history) ∧
    replay blank.getOracleReportLimits w.state.emitted = w.state.getOracleReportLimits ∧
    (w.state.getOracleReportLimits.toLimitsList.Admitted ↔
      ∃ event ∈ w.state.emitted, event.limit = .maxPositiveTokenRebase) :=
  have htold := told_of_run hdeployed h
  ⟨get_of_run hdeployed h, htold.replayed, htold.admitted_iff⟩

/-! The contract is deployed without a limit for rebases, and its manager gives it one. -/

def exampleRoleHash (name : String) : Role :=
  if name = "MAX_POSITIVE_TOKEN_REBASE_MANAGER_ROLE" then 2 else 3

def exampleLimits : ReportLimits where
  churnValidatorsPerDayLimit := 1800
  oneOffCLBalanceDecreaseBPLimit := 500
  annualBalanceIncreaseBPLimit := 1000
  simulatedShareRateDeviationBPLimit := 50
  requestTimestampMargin := 128
  maxPositiveTokenRebase := 0
  maxValidatorExitRequestsPerReport := 500
  maxAccountingExtraDataListItemsCount := 500
  maxNodeOperatorsPerExtraDataItemCount := 100

def exampleDeployed : OracleReportSanityChecker :=
  result (deploy exampleRoleHash 1 exampleLimits ⟨[], [], [], [], [], [], [], [], [], [9]⟩)
    (by decide +kernel)

theorem deployed_exampleDeployed : Deployed exampleRoleHash exampleDeployed :=
  ⟨_, _, _, eq_ok_result _ (by decide +kernel)⟩

theorem exampleLimitTime_pos : 0 < 30 := by decide

def exampleSet : LimitsCall :=
  .setLimit .maxPositiveTokenRebase ⟨9, 0, 30, exampleLimitTime_pos⟩ 750000

def exampleAfter : OracleReportSanityChecker :=
  result (exampleDeployed.run exampleRoleHash exampleSet) (by decide +kernel)

theorem performs_exampleSet : Performs exampleRoleHash exampleDeployed exampleSet exampleAfter :=
  eq_ok_result _ (by decide +kernel)

theorem limitsRun_exampleAfter :
    LimitsRun exampleRoleHash exampleDeployed
      ⟨exampleAfter, [⟨exampleDeployed, exampleSet, exampleAfter⟩]⟩ := by
  have hinit : LimitsRun exampleRoleHash exampleDeployed ⟨exampleDeployed, []⟩ := .init rfl
  exact hinit.step (.act performs_exampleSet)

/-- It cannot be taken away again. -/
theorem limits_exact_rebase :
    ¬ ∃ s', exampleAfter.run exampleRoleHash
      (.setLimit .maxPositiveTokenRebase ⟨9, 0, 30, exampleLimitTime_pos⟩ 0) = .ok s' := by
  intro hzero
  obtain ⟨hiff, -⟩ := limits_exact deployed_exampleDeployed limitsRun_exampleAfter
    (.setLimit .maxPositiveTokenRebase ⟨9, 0, 30, exampleLimitTime_pos⟩ 0)
  obtain ⟨-, hlimits⟩ := hiff.mp hzero
  rcases hlimits .maxPositiveTokenRebase with hsame | ⟨hmin, -⟩
  · exact absurd hsame (by decide +kernel)
  · exact absurd hmin (by decide +kernel)

theorem limits_told_rebase : exampleAfter.getOracleReportLimits.toLimitsList.Admitted := by
  obtain ⟨-, -, hadmitted⟩ := limits_told deployed_exampleDeployed limitsRun_exampleAfter
  exact hadmitted.mpr ⟨⟨.maxPositiveTokenRebase, 750000⟩, by decide +kernel, rfl⟩

end OracleReportSanityChecker

end Catalist
