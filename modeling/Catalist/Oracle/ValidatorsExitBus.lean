import Catalist.Lib.Calldata
import Catalist.Lib.Loop
import Catalist.Oracle.BaseOracle

/-!
# The exit bus oracle

`ValidatorsExitBusOracle.sol`: the processing of a report of validator exit requests. The requests
are read from calldata by assembly code, 64 bytes at a time.

A call returns the events `ValidatorExitRequest` that it emits.
-/

namespace Catalist

open Solidity ByteBuffer

/-- The data format `DATA_FORMAT_LIST`, the only one. -/
def EXIT_BUS_DATA_FORMAT_LIST : Nat := 1

def PACKED_REQUEST_LENGTH : Nat := 64

structure RequestedValidator where
  requested : Bool
  index : Nat
deriving DecidableEq, Repr

/-- The mapping from packed node operator keys to the last requested validator index. -/
abbrev LastRequestedValidatorIndices := Nat → RequestedValidator

structure ExitBusProcessingState where
  refSlot : Nat
  requestsCount : Nat
  requestsProcessed : Nat
  dataFormat : Nat
deriving DecidableEq, Repr

/-- The storage of `ValidatorsExitBusOracle`. -/
structure ValidatorsExitBusOracle where
  base : BaseOracle
  resumeSinceTimestamp : Nat
  totalRequestsProcessed : Nat
  lastRequestedValidatorIndices : LastRequestedValidatorIndices
  dataProcessingState : ExitBusProcessingState

/-- `ReportData` -/
structure ExitBusReportData where
  consensusVersion : Nat
  refSlot : Nat
  requestsCount : Nat
  dataFormat : Nat
  data : CalldataBytes

/-- The event `ValidatorExitRequest`. -/
structure ValidatorExitRequest where
  stakingModuleId : Nat
  nodeOperatorId : Nat
  validatorIndex : Nat
  validatorPubkey : Bytes
  timestamp : Nat
deriving DecidableEq, Repr

/-- The context of a call, with the answers of the other contracts. -/
structure ExitBusEnv extends Env where
  hasSubmitDataRole : Address → Bool
  isConsensusMember : Address → Bool
  /-- `keccak256(abi.encode(data))` -/
  hashOf : ExitBusReportData → Hash
  /-- a limit of the sanity checker -/
  maxValidatorExitRequestsPerReport : Nat

inductive ExitBusError where
  | oracle (e : OracleError)
  | resumedExpected
  | senderNotAllowed
  | unsupportedRequestsDataFormat (format : Nat)
  | invalidRequestsData
  | invalidRequestsDataLength
  | unexpectedRequestsDataLength
  | invalidRequestsDataSortOrder
  | nodeOpValidatorIndexMustIncrease
      (moduleId nodeOpId prevRequestedValidatorIndex requestedValidatorIndex : Nat)
  | incorrectNumberOfExitRequestsPerReport (maxRequestsCount : Nat)
deriving DecidableEq, Repr

/-- `_computeNodeOpKey` -/
def computeNodeOpKey (moduleId nodeOpId : Nat) : Nat := moduleId <<< 40 ||| nodeOpId

/-- The variables of the loop of `_processExitRequestsList`, with the mapping in storage. -/
structure ExitRequestsLoop where
  offset : Nat
  lastDataWithoutPubkey : Nat
  lastNodeOpKey : Nat
  lastRequestedVal : RequestedValidator
  stored : LastRequestedValidatorIndices
  emitted : List ValidatorExitRequest

namespace ExitRequestsLoop

variable (loop : ExitRequestsLoop)

/-- The mapping once the node operator at hand is written. -/
def flushed : LastRequestedValidatorIndices :=
  if loop.lastNodeOpKey ≠ 0 then
    Function.update loop.stored loop.lastNodeOpKey loop.lastRequestedVal
  else loop.stored

/-- The loop goes on with a node operator; the last one is written when they differ. -/
def select (nodeOpKey : Nat) : ExitRequestsLoop :=
  if nodeOpKey ≠ loop.lastNodeOpKey then
    { loop with
      stored := loop.flushed
      lastRequestedVal := loop.flushed nodeOpKey
      lastNodeOpKey := nodeOpKey }
  else loop

end ExitRequestsLoop

namespace ValidatorsExitBusOracle

variable (data : CalldataBytes) (timestamp : Nat)

/-- The body of the loop of `_processExitRequestsList`. -/
def processExitRequest (loop : ExitRequestsLoop) : Call ExitBusError ExitRequestsLoop := do
  let dataWithoutPubkey := (mload data.calldata loop.offset >>> 128).toNat
  let pubkey := data.slice (Yul.add loop.offset 16) 48
  let offset := Yul.add loop.offset 64
  require (loop.lastDataWithoutPubkey < dataWithoutPubkey) .invalidRequestsDataSortOrder
  let valIndex := dataWithoutPubkey % 2 ^ 64
  let nodeOpId := (dataWithoutPubkey >>> 64) % 2 ^ 40
  let moduleId := (dataWithoutPubkey >>> (64 + 40)) % 2 ^ 24
  require (moduleId ≠ 0) .invalidRequestsData
  let loop := loop.select (computeNodeOpKey moduleId nodeOpId)
  let lastRequestedVal := loop.lastRequestedVal
  require (lastRequestedVal.requested = true → lastRequestedVal.index < valIndex)
    (.nodeOpValidatorIndexMustIncrease moduleId nodeOpId lastRequestedVal.index valIndex)
  return {
    offset := offset
    lastDataWithoutPubkey := dataWithoutPubkey
    lastNodeOpKey := loop.lastNodeOpKey
    lastRequestedVal := { requested := true, index := valIndex }
    stored := loop.stored
    emitted := loop.emitted ++ [⟨moduleId, nodeOpId, valIndex, pubkey, timestamp⟩] }

/--
`_processExitRequestsList`, for at most `rounds` requests; `none` if that is not enough. It returns
the mapping and the events.
-/
def processExitRequestsList (stored : LastRequestedValidatorIndices) (rounds : Nat) :
    Option (Call ExitBusError (LastRequestedValidatorIndices × List ValidatorExitRequest)) :=
  let offsetPastEnd := Yul.add data.offset data.length
  (whileLoop (fun loop : ExitRequestsLoop => loop.offset < offsetPastEnd)
    (processExitRequest data timestamp) rounds
    { offset := data.offset, lastDataWithoutPubkey := 0, lastNodeOpKey := 0,
      lastRequestedVal := { requested := false, index := 0 }, stored := stored,
      emitted := [] }).map (·.map fun loop => (loop.flushed, loop.emitted))

variable (o : ValidatorsExitBusOracle)

/-- `_checkResumed` -/
def checkResumed (env : Env) : Call ExitBusError Unit :=
  require (¬ env.timestamp < o.resumeSinceTimestamp) .resumedExpected

/-- `_checkMsgSenderIsAllowedToSubmitData` -/
def checkMsgSenderIsAllowedToSubmitData (env : ExitBusEnv) : Call ExitBusError Unit :=
  require (env.hasSubmitDataRole env.sender = true ∨ env.isConsensusMember env.sender = true)
    .senderNotAllowed

/-- The part of `_handleConsensusReportData` before the requests are processed. -/
def checkReportData (report : ExitBusReportData) (env : ExitBusEnv) : Call ExitBusError Unit := do
  require (report.dataFormat = EXIT_BUS_DATA_FORMAT_LIST)
    (.unsupportedRequestsDataFormat report.dataFormat)
  require (report.data.length % PACKED_REQUEST_LENGTH = 0) .invalidRequestsDataLength
  require (report.requestsCount ≤ env.maxValidatorExitRequestsPerReport)
    (.incorrectNumberOfExitRequestsPerReport env.maxValidatorExitRequestsPerReport)
  require (report.data.length / PACKED_REQUEST_LENGTH = report.requestsCount)
    .unexpectedRequestsDataLength

/-- The part of `_handleConsensusReportData` after the requests are processed. -/
def finishReportData (report : ExitBusReportData)
    (processed : LastRequestedValidatorIndices × List ValidatorExitRequest) :
    Call ExitBusError (ValidatorsExitBusOracle × List ValidatorExitRequest) := do
  let refSlot ← within .oracle (toUint64 report.refSlot)
  let requestsCount ← within .oracle (toUint64 report.requestsCount)
  let o := { o with
    lastRequestedValidatorIndices := processed.1
    dataProcessingState := ⟨refSlot, requestsCount, requestsCount, EXIT_BUS_DATA_FORMAT_LIST⟩ }
  if report.requestsCount = 0 then
    return (o, processed.2)
  else do
    let total ← checkedAdd 256 o.totalRequestsProcessed report.requestsCount
    return ({ o with totalRequestsProcessed := total }, processed.2)

/-- The part of `submitReportData` before the requests are processed. -/
def startReportData (report : ExitBusReportData) (contractVersion : Nat) (env : ExitBusEnv) :
    Call ExitBusError ValidatorsExitBusOracle := do
  o.checkResumed env.toEnv
  checkMsgSenderIsAllowedToSubmitData env
  within .oracle (o.base.checkContractVersion contractVersion)
  within .oracle (o.base.checkConsensusData report.refSlot report.consensusVersion
    (env.hashOf report))
  let (base, _) ← within .oracle (o.base.startProcessing env.toEnv)
  checkReportData report env
  return { o with base := base }

/-- `submitReportData`, with at most `rounds` requests; `none` if that is not enough. -/
def submitReportData (report : ExitBusReportData) (contractVersion : Nat) (env : ExitBusEnv)
    (rounds : Nat) :
    Option (Call ExitBusError (ValidatorsExitBusOracle × List ValidatorExitRequest)) :=
  match o.startReportData report contractVersion env with
  | .error r => some (.error r)
  | .ok o =>
    (processExitRequestsList report.data env.timestamp o.lastRequestedValidatorIndices rounds).map
      (· >>= o.finishReportData report)

end ValidatorsExitBusOracle

end Catalist
