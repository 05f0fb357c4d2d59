import Catalist.Lib.Calldata
import Catalist.Lib.Loop
import Catalist.Oracle.BaseOracle

/-!
# The accounting oracle: extra data

`AccountingOracle.sol`, the part that processes the extra data of a report. The list of items is
read from calldata by assembly code.

The staking router and the sanity checker are other contracts: the state of the router is a
parameter `ρ`, and every call to it may revert.
-/

namespace Catalist

open Solidity ByteBuffer

def EXTRA_DATA_TYPE_STUCK_VALIDATORS : Nat := 1

def EXTRA_DATA_TYPE_EXITED_VALIDATORS : Nat := 2

def EXTRA_DATA_FORMAT_EMPTY : Nat := 0

def EXTRA_DATA_FORMAT_LIST : Nat := 1

structure ExtraDataProcessingState where
  refSlot : Nat
  dataFormat : Nat
  submitted : Bool
  itemsCount : Nat
  itemsProcessed : Nat
  lastSortingKey : Nat
  dataHash : Hash
deriving DecidableEq, Repr

/-- The storage of `AccountingOracle`. -/
structure AccountingOracle where
  base : BaseOracle
  extraData : ExtraDataProcessingState
deriving DecidableEq, Repr

/-- The context of a call, with the answers of the access control and the consensus contract. -/
structure AccountingEnv extends Env where
  hasSubmitDataRole : Address → Bool
  isConsensusMember : Address → Bool
  keccak256 : Bytes → Hash

inductive AccountingError where
  | oracle (e : OracleError)
  | senderNotAllowed
  | unsupportedExtraDataType (itemIndex dataType : Nat)
  | cannotSubmitExtraDataBeforeMainData
  | extraDataAlreadyProcessed
  | extraDataListOnlySupportsSingleTx
  | unexpectedExtraDataHash (consensusHash receivedHash : Hash)
  | unexpectedExtraDataFormat (expectedFormat receivedFormat : Nat)
  | unexpectedExtraDataItemsCount (expectedCount receivedCount : Nat)
  | unexpectedExtraDataIndex (expectedIndex receivedIndex : Nat)
  | invalidExtraDataItem (itemIndex : Nat)
  | invalidExtraDataSortOrder (itemIndex : Nat)
  /-- a contract that was called reverted -/
  | callee
deriving DecidableEq, Repr

/-- The calls that the extra data processing makes to the staking router. -/
inductive RouterCall where
  | reportStuckValidatorsCount (moduleId : Nat) (nodeOperatorIds stuckValidatorsCounts : Bytes)
  | reportExitedValidatorsCount (moduleId : Nat) (nodeOperatorIds exitedValidatorsCounts : Bytes)
  | reportingFinished
deriving DecidableEq, Repr

/-- The contracts that are called; `ρ` is the state of the staking router. -/
structure ExtraDataCallees (ρ : Type) where
  router : RouterCall → ρ → Call AccountingError ρ
  /-- the check of the sanity checker, by item index and number of node operators -/
  checkNodeOperatorsPerExtraDataItemCount : Nat → Nat → Call AccountingError Unit

structure ExtraDataIterState where
  index : Nat
  itemType : Nat
  dataOffset : Nat
  lastSortingKey : Nat
deriving DecidableEq, Repr

namespace AccountingOracle

variable {ρ : Type} (callees : ExtraDataCallees ρ) (data : CalldataBytes)

/-- The call that reports the counts of one item. -/
def routerCallOf (itemType moduleId : Nat) (nodeOpIds valuesCounts : Bytes) : RouterCall :=
  if itemType = EXTRA_DATA_TYPE_STUCK_VALIDATORS then
    .reportStuckValidatorsCount moduleId nodeOpIds valuesCounts
  else .reportExitedValidatorsCount moduleId nodeOpIds valuesCounts

/-- `_processExtraDataItem`; it returns the number of node operators of the item. -/
def processExtraDataItem (iter : ExtraDataIterState) (router : ρ) :
    Call AccountingError (ExtraDataIterState × ρ × Nat) := do
  let dataOffset := iter.dataOffset
  let itemEnd ← checkedAdd 256 dataOffset 35
  require (itemEnd ≤ data.length) (.invalidExtraDataItem iter.index)
  let header := mload data.calldata (Yul.add data.offset dataOffset)
  let moduleId := (header >>> 232).toNat
  let nodeOpsCount := (header >>> 168 &&& 0xffffffffffffffff).toNat
  let nodeOpIdsOffset := Yul.add data.offset (Yul.add dataOffset 11)
  let nodeOpIdsLength := Yul.mul nodeOpsCount 8
  let firstNodeOpId := (mload data.calldata nodeOpIdsOffset >>> 192).toNat
  let valuesCountsOffset := Yul.add nodeOpIdsOffset nodeOpIdsLength
  let valuesCountsLength := Yul.mul nodeOpsCount 16
  let dataOffset := Yul.sub (Yul.add valuesCountsOffset valuesCountsLength) data.offset
  require (moduleId ≠ 0) (.invalidExtraDataItem iter.index)
  let sortingKey := iter.itemType <<< 240 ||| moduleId <<< 64 ||| firstNodeOpId
  require (iter.lastSortingKey < sortingKey) (.invalidExtraDataSortOrder iter.index)
  let iter := { iter with lastSortingKey := sortingKey }
  require (dataOffset ≤ data.length ∧ nodeOpsCount ≠ 0) (.invalidExtraDataItem iter.index)
  let router ← callees.router (routerCallOf iter.itemType moduleId
    (data.slice nodeOpIdsOffset nodeOpIdsLength)
    (data.slice valuesCountsOffset valuesCountsLength)) router
  return ({ iter with dataOffset := dataOffset }, router, nodeOpsCount)

/-- The check of the item index; the first item is the one with no item type before it. -/
def checkExtraDataIndex (iter : ExtraDataIterState) (index : Nat) : Call AccountingError Unit := do
  if iter.itemType = 0 then
    require (index = 0) (.unexpectedExtraDataIndex 0 index)
  else
    let expected ← checkedAdd 256 iter.index 1
    require (index = expected) (.unexpectedExtraDataIndex expected index)

/-- The variables of the loop of `_processExtraDataItems`. -/
structure ExtraDataLoop (ρ : Type) where
  dataOffset : Nat
  maxNodeOperatorsPerItem : Nat
  maxNodeOperatorItemIndex : Nat
  iter : ExtraDataIterState
  router : ρ

/-- The body of the loop of `_processExtraDataItems`. -/
def processExtraDataRound (loop : ExtraDataLoop ρ) :
    Call AccountingError (ExtraDataLoop ρ) := do
  let header := mload data.calldata (Yul.add data.offset loop.dataOffset)
  let index := (header >>> 232).toNat
  let itemType := (header >>> 216 &&& 0xffff).toNat
  let dataOffset := Yul.add loop.dataOffset 5
  checkExtraDataIndex loop.iter index
  let iter := { loop.iter with index := index, itemType := itemType, dataOffset := dataOffset }
  require (itemType = EXTRA_DATA_TYPE_EXITED_VALIDATORS ∨
    itemType = EXTRA_DATA_TYPE_STUCK_VALIDATORS) (.unsupportedExtraDataType index itemType)
  let (iter, router, nodeOpsProcessed) ← processExtraDataItem callees data iter loop.router
  ensure (dataOffset < iter.dataOffset)
  return {
    dataOffset := iter.dataOffset
    maxNodeOperatorsPerItem := max loop.maxNodeOperatorsPerItem nodeOpsProcessed
    maxNodeOperatorItemIndex :=
      if loop.maxNodeOperatorsPerItem < nodeOpsProcessed then index
      else loop.maxNodeOperatorItemIndex
    iter := iter
    router := router }

/-- The part of `_processExtraDataItems` after the loop. -/
def finishExtraDataItems (loop : ExtraDataLoop ρ) :
    Call AccountingError (ExtraDataIterState × ρ) := do
  ensure (0 < loop.maxNodeOperatorsPerItem)
  callees.checkNodeOperatorsPerExtraDataItemCount loop.maxNodeOperatorItemIndex
    loop.maxNodeOperatorsPerItem
  return (loop.iter, loop.router)

/-- `_processExtraDataItems`, for at most `rounds` items; `none` if that is not enough. -/
def processExtraDataItems (rounds : Nat) (iter : ExtraDataIterState) (router : ρ) :
    Option (Call AccountingError (ExtraDataIterState × ρ)) :=
  (whileLoop (fun loop : ExtraDataLoop ρ => loop.dataOffset < data.length)
    (processExtraDataRound callees data) rounds
    { dataOffset := iter.dataOffset, maxNodeOperatorsPerItem := 0, maxNodeOperatorItemIndex := 0,
      iter := iter, router := router }).map (· >>= finishExtraDataItems callees)

/-- `_checkMsgSenderIsAllowedToSubmitData` -/
def checkMsgSenderIsAllowedToSubmitData (env : AccountingEnv) : Call AccountingError Unit :=
  require (env.hasSubmitDataRole env.sender = true ∨ env.isConsensusMember env.sender = true)
    .senderNotAllowed

variable (o : AccountingOracle)

/-- `_checkCanSubmitExtraData` -/
def checkCanSubmitExtraData (env : AccountingEnv) (format : Nat) : Call AccountingError Unit := do
  checkMsgSenderIsAllowedToSubmitData env
  let report := o.base.consensusReport
  require (report.hash ≠ ZERO_HASH ∧ o.extraData.refSlot = report.refSlot)
    .cannotSubmitExtraDataBeforeMainData
  require (env.timestamp ≤ report.processingDeadlineTime)
    (.oracle (.processingDeadlineMissed report.processingDeadlineTime))
  require (o.extraData.dataFormat = format)
    (.unexpectedExtraDataFormat o.extraData.dataFormat format)

/-- The part of `_submitReportExtraDataList` before the items are processed. -/
def checkExtraDataList (env : AccountingEnv) : Call AccountingError Unit := do
  o.checkCanSubmitExtraData env EXTRA_DATA_FORMAT_LIST
  require (o.extraData.itemsProcessed ≠ o.extraData.itemsCount) .extraDataAlreadyProcessed
  require (o.extraData.itemsProcessed = 0) .extraDataListOnlySupportsSingleTx
  let dataHash := env.keccak256 data.bytes
  require (dataHash = o.extraData.dataHash)
    (.unexpectedExtraDataHash o.extraData.dataHash dataHash)

/-- The part of `_submitReportExtraDataList` after the items are processed. -/
def finishExtraDataList (processed : ExtraDataIterState × ρ) :
    Call AccountingError (AccountingOracle × ρ) := do
  let (iter, router) := processed
  let itemsProcessed ← checkedAdd 256 iter.index 1
  require (itemsProcessed = o.extraData.itemsCount)
    (.unexpectedExtraDataItemsCount o.extraData.itemsCount itemsProcessed)
  let o := { o with
    extraData := { o.extraData with
      submitted := true
      itemsProcessed := itemsProcessed % 2 ^ 64
      lastSortingKey := iter.lastSortingKey } }
  let router ← callees.router .reportingFinished router
  return (o, router)

/-- `submitReportExtraDataList`, with at most `rounds` items; `none` if that is not enough. -/
def submitReportExtraDataList (env : AccountingEnv) (rounds : Nat) (router : ρ) :
    Option (Call AccountingError (AccountingOracle × ρ)) :=
  match o.checkExtraDataList data env with
  | .error r => some (.error r)
  | .ok _ =>
    (processExtraDataItems callees data rounds
      { index := 0, itemType := 0, dataOffset := 0, lastSortingKey := 0 } router).map
        (· >>= o.finishExtraDataList callees)

end AccountingOracle

end Catalist
