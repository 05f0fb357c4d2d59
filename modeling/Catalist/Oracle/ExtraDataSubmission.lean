import Catalist.Oracle.AccountingReport
import Catalist.Oracle.ExtraDataParser

/-!
# Submissions to the accounting oracle

`submitReportExtraDataEmpty`, and what the three submissions check and change when they go through:
that of the main data, and those of the extra data of either kind.
-/

namespace Catalist

open Solidity ByteBuffer ExtraData

namespace AccountingOracle

variable {ρ : Type} (callees : ExtraDataCallees ρ) (o : AccountingOracle)

/-- `submitReportExtraDataEmpty` -/
def submitReportExtraDataEmpty (env : AccountingEnv) (router : ρ) :
    Call AccountingError (AccountingOracle × ρ) := do
  o.checkCanSubmitExtraData env EXTRA_DATA_FORMAT_EMPTY
  require (o.extraData.submitted = false) .extraDataAlreadyProcessed
  let router ← callees.router .reportingFinished router
  return ({ o with extraData := { o.extraData with submitted := true } }, router)

/-! ## What the submissions check -/

variable {callees o} {o' : AccountingOracle} {env : AccountingEnv} {router router' : ρ}

/-- Extra data is expected from the sender now, for the report of the main data. -/
structure Expected (o : AccountingOracle) (env : AccountingEnv) (format : Nat) : Prop where
  sender : env.hasSubmitDataRole env.sender = true ∨ env.isConsensusMember env.sender = true
  report : o.base.consensusReport.hash ≠ ZERO_HASH
  refSlot : o.extraData.refSlot = o.base.consensusReport.refSlot
  deadline : env.timestamp ≤ o.base.consensusReport.processingDeadlineTime
  dataFormat : o.extraData.dataFormat = format

theorem submitReportExtraDataEmpty_ok_cases
    (h : o.submitReportExtraDataEmpty callees env router = .ok (o', router')) :
    Expected o env EXTRA_DATA_FORMAT_EMPTY ∧ o.extraData.submitted = false ∧
      callees.router .reportingFinished router = .ok router' ∧
      o' = { o with extraData := { o.extraData with submitted := true } } := by
  simp only [submitReportExtraDataEmpty, checkCanSubmitExtraData,
    checkMsgSenderIsAllowedToSubmitData, bind_eq_ok, require_eq_ok, pure_eq_ok,
    Prod.mk.injEq] at h
  obtain ⟨_, ⟨_, hsender, _, ⟨hreport, hrefSlot⟩, _, hdeadline, hformat⟩, _, hsubmitted, _, hcall,
    rfl, rfl⟩ := h
  exact ⟨⟨hsender, hreport, hrefSlot, hdeadline, hformat⟩, hsubmitted, hcall, rfl⟩

theorem expected_of_listExpected {bytes : Bytes} (h : ListExpected o env bytes) :
    Expected o env EXTRA_DATA_FORMAT_LIST :=
  ⟨h.sender, h.report, h.refSlot, h.deadline, h.dataFormat⟩

/-- A list that is accepted is one of as many items as are expected, and the router gets them all. -/
theorem submitReportExtraDataList_ok_cases {data : CalldataBytes} {rounds : Nat}
    (h : o.submitReportExtraDataList callees data env rounds router = some (.ok (o', router'))) :
    ListExpected o env data.bytes ∧
    ∃ items lastSortingKey, Encodes data.bytes items ∧ items.length = o.extraData.itemsCount ∧
      routeAll callees (reports items ++ [.reportingFinished]) router = .ok router' ∧
      o' = { o with
        extraData := { o.extraData with
          submitted := true
          itemsProcessed := items.length % 2 ^ 64
          lastSortingKey := lastSortingKey } } := by
  unfold submitReportExtraDataList at h
  cases hcheck : o.checkExtraDataList data env with
  | error r =>
    rw [hcheck] at h
    simp at h
  | ok u =>
    rw [hcheck] at h
    refine ⟨checkExtraDataList_eq_ok.mp hcheck, ?_⟩
    simp only [processExtraDataItems, Option.map_map, Option.map_eq_some_iff] at h
    obtain ⟨outcome, hloop, hfinish⟩ := h
    simp only [Function.comp, bind_eq_ok] at hfinish
    obtain ⟨processed, ⟨loop', rfl, hprocessed⟩, hfinish⟩ := hfinish
    simp only [finishExtraDataItems, bind_eq_ok, ensure_eq_ok, pure_eq_ok] at hprocessed
    obtain ⟨_, hmax, _, -, rfl⟩ := hprocessed
    obtain ⟨items, hcont, hproc⟩ := exists_items (runs_of_whileLoop hloop) (Nat.zero_le _)
      (Nat.zero_le _)
    have hne : items ≠ [] := by
      rcases hproc.maxNodeOperatorsPerItem.mp hmax with hzero | hne
      · exact absurd hzero (Nat.lt_irrefl 0)
      · exact hne
    have hitems : Encodes data.bytes items := encodes_iff.mpr ⟨hne, hcont⟩
    have hsmall : items.length < 2 ^ 256 := by
      have hlength := hitems.length_le
      omega
    obtain ⟨-, hresult⟩ := hproc.itemsProcessed hne
    obtain ⟨hcount, hcall, rfl⟩ := (finishExtraDataList_eq_ok hsmall hresult).mp hfinish
    refine ⟨items, _, hitems, hcount, ?_, rfl⟩
    rw [routeAll, List.foldlM_append]
    refine bind_eq_ok.mpr ⟨_, hresult.router, ?_⟩
    rw [List.foldlM_cons, hcall]
    rfl

/-- The extra data that the main data commits to, with the report for its slot. -/
def committed (data : AccountingReportData) : ExtraDataProcessingState where
  refSlot := data.refSlot
  dataFormat := data.extraDataFormat
  submitted := false
  itemsCount := data.extraDataItemsCount
  itemsProcessed := 0
  lastSortingKey := 0
  dataHash := data.extraDataHash

/-- Data without extra data names no hash and no items. -/
def Coherent (data : AccountingReportData) : Prop :=
  data.extraDataFormat = EXTRA_DATA_FORMAT_EMPTY → data.extraDataHash = ZERO_HASH ∧
    data.extraDataItemsCount = 0

theorem newProcessingState_ok_cases {data : AccountingReportData} {state : ExtraDataProcessingState}
    (h : newProcessingState data = .ok state) : state = committed data := by
  simp only [newProcessingState, toUint64, toUint16, bind_eq_ok, within_eq_ok, require_eq_ok,
    pure_eq_ok] at h
  obtain ⟨_, ⟨_, -, rfl⟩, _, ⟨_, -, rfl⟩, _, ⟨_, -, rfl⟩, rfl⟩ := h
  rfl

theorem coherent_of_checkReportExtraData {data : AccountingReportData} {u : Unit}
    (h : checkReportExtraData data = .ok u) : Coherent data := by
  intro hformat
  simp only [checkReportExtraData, hformat, if_true, bind_eq_ok, require_eq_ok] at h
  obtain ⟨_, hhash, hcount⟩ := h
  exact ⟨hhash, hcount⟩

/-- Main data is accepted for the consensus report that is there, in time, and once. -/
theorem submitReportData_ok_cases {callees : ReportCallees ρ} {data : AccountingReportData}
    {version : Nat} {env : AccountingReportEnv} {pool pool' : Pool}
    (h : o.submitReportData callees data version env router pool = .ok (o', router', pool')) :
    o.base.consensusReport.hash = env.hashOf data ∧
    o.base.consensusReport.refSlot = data.refSlot ∧
    o.base.consensusReport.hash ≠ ZERO_HASH ∧ o.base.lastProcessingRefSlot ≠ data.refSlot ∧
    Coherent data ∧
    o' = {
      base := { o.base with lastProcessingRefSlot := data.refSlot }
      extraData := committed data } := by
  simp only [submitReportData, bind_eq_ok, within_eq_ok] at h
  obtain ⟨_, -, _, -, _, hcheck, ⟨base, prevRefSlot⟩, hstart, h⟩ := h
  simp only [handleConsensusReportData, bind_eq_ok, pure_eq_ok, Prod.mk.injEq] at h
  obtain ⟨_, hextra, _, -, _, -, _, -, _, -, _, -, _, -, state, hstate, rfl, -, -⟩ := h
  simp only [BaseOracle.checkConsensusData, bind_eq_ok, require_eq_ok] at hcheck
  obtain ⟨_, hrefSlot, _, -, hhash⟩ := hcheck
  simp only [BaseOracle.startProcessing, bind_eq_ok, require_eq_ok, pure_eq_ok,
    Prod.mk.injEq] at hstart
  obtain ⟨_, hne, _, -, _, hprev, rfl, -⟩ := hstart
  rw [← hrefSlot] at hprev ⊢
  rw [newProcessingState_ok_cases hstate]
  exact ⟨hhash.symm, rfl, hne, hprev, coherent_of_checkReportExtraData hextra, rfl⟩

end AccountingOracle

end Catalist
