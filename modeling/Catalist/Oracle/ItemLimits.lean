import Catalist.Oracle.ExtraDataParser
import Catalist.Pool.Limits

/-!
# The limit for the items of the extra data

While it goes through the items, the accounting oracle only remembers the greatest number of node
operators of an item, and has the sanity checker check that number at the end.
-/

namespace Catalist

open Solidity ByteBuffer AccountingOracle

namespace ExtraData

variable {ρ : Type} {data : CalldataBytes} {items : List ExtraDataItem}

/-- The sanity checker checks the items; what it reverts with is passed on. -/
def checkedBy (checker : OracleReportSanityChecker)
    (router : RouterCall → ρ → Call AccountingError ρ) : ExtraDataCallees ρ where
  router := router
  checkNodeOperatorsPerExtraDataItemCount itemIndex nodeOpsCount := within (fun _ => .callee)
    (checker.checkNodeOperatorsPerExtraDataItemCount itemIndex nodeOpsCount)

/-- The greatest number of node operators, of the items and a number from before. -/
def greatest (most : Nat) (items : List ExtraDataItem) : Nat :=
  items.foldl (fun most item => max most item.nodeOperatorIds.length) most

theorem greatest_le_iff {most limit : Nat} :
    greatest most items ≤ limit ↔
      most ≤ limit ∧ ∀ item ∈ items, item.nodeOperatorIds.length ≤ limit := by
  induction items generalizing most with
  | nil => simp [greatest]
  | cons item items ih =>
    change greatest (max most item.nodeOperatorIds.length) items ≤ limit ↔ _
    rw [ih, Nat.max_le, List.forall_mem_cons, and_assoc]

section loop

variable {callees : ExtraDataCallees ρ} {loop loop' : ExtraDataLoop ρ}

/-- Items are read as long as there is data. -/
theorem Continues.nil_iff (h : Continues data loop.dataOffset loop.iter items) :
    items = [] ↔ ¬ loop.dataOffset < data.length := by
  have hlength := congrArg List.length h.bytes
  rw [List.length_drop, data.length_bytes] at hlength
  cases items with
  | nil =>
    rw [encodeItems, List.length_nil] at hlength
    simp only [true_iff]
    omega
  | cons item items =>
    have hinside := h.of_cons.2.1.inside
    simp only [reduceCtorEq, false_iff, not_not]
    omega

/-- What the loop remembers, by induction over its rounds. -/
theorem maxNodeOperatorsPerItem_of_runs
    (h : Runs (fun loop => loop.dataOffset < data.length) (processExtraDataRound callees data)
      loop loop') (hitems : Continues data loop.dataOffset loop.iter items) :
    loop'.maxNodeOperatorsPerItem = greatest loop.maxNodeOperatorsPerItem items := by
  induction h generalizing items with
  | done hend =>
    rw [hitems.nil_iff.mpr hend]
    rfl
  | @round loop loop₁ loop' hlt hround _ ih =>
    cases items with
    | nil => exact absurd hlt (hitems.nil_iff.mp rfl)
    | cons item items =>
      obtain ⟨hitem, -, hrest⟩ := hitems.of_cons
      obtain ⟨-, router, -, rfl⟩ := (processExtraDataRound_eq_ok hlt).mp hround
      rw [ih (hrest router), ExtraDataLoop.after, hitem.nodeOpsCount]
      rfl

end loop

/-- A round reads at least the header of an item. -/
theorem lt_of_processExtraDataRound (callees : ExtraDataCallees ρ) (loop loop' : ExtraDataLoop ρ)
    (hlt : loop.dataOffset < data.length)
    (hround : processExtraDataRound callees data loop = .ok loop') :
    data.length - loop'.dataOffset < data.length - loop.dataOffset := by
  obtain ⟨-, router', -, rfl⟩ := (processExtraDataRound_eq_ok hlt).mp hround
  simp only [ExtraDataLoop.after]
  omega

variable {checker : OracleReportSanityChecker} {router : RouterCall → ρ → Call AccountingError ρ}

/-- What is left to do when the items were read. -/
theorem finishExtraDataItems_checkedBy {loop : ExtraDataLoop ρ}
    (hpos : 0 < loop.maxNodeOperatorsPerItem) :
    finishExtraDataItems (checkedBy checker router) loop =
      if loop.maxNodeOperatorsPerItem
          ≤ checker.getOracleReportLimits.maxNodeOperatorsPerExtraDataItemCount then
        .ok (loop.iter, loop.router)
      else .error (.error .callee) := by
  unfold finishExtraDataItems OracleReportSanityChecker.getOracleReportLimits
  rw [ensure_of hpos, ok_bind]
  by_cases hle : loop.maxNodeOperatorsPerItem
      ≤ checker.limits.unpack.maxNodeOperatorsPerExtraDataItemCount
  · rw [if_pos hle]
    simp only [checkedBy, OracleReportSanityChecker.checkNodeOperatorsPerExtraDataItemCount,
      within_require]
    rw [require_of hle]
    rfl
  · rw [if_neg hle]
    simp only [checkedBy, OracleReportSanityChecker.checkNodeOperatorsPerExtraDataItemCount,
      within_require]
    rw [require, if_neg hle]
    rfl

/-- The items of the data were read. -/
structure Read (callees : ExtraDataCallees ρ) (data : CalldataBytes) (s : ρ)
    (items : List ExtraDataItem) (loop : ExtraDataLoop ρ) : Prop where
  encodes : Encodes data.bytes items
  pos : 0 < loop.maxNodeOperatorsPerItem
  most : loop.maxNodeOperatorsPerItem = greatest 0 items
  processed : ItemsProcessed callees items s (loop.iter, loop.router)

/-- The variables before the first round. -/
def firstLoop (s : ρ) : ExtraDataLoop ρ := ⟨0, 0, 0, initialIter, s⟩

section read

variable {callees : ExtraDataCallees ρ} {s : ρ} {loop : ExtraDataLoop ρ}

theorem exists_read (callees : ExtraDataCallees ρ) (s : ρ)
    (hrouter : ∀ call s, ∃ s', callees.router call s = .ok s')
    (hitems : Encodes data.bytes items) :
    ∃ loop, Runs (fun loop => loop.dataOffset < data.length) (processExtraDataRound callees data)
      (firstLoop s) loop ∧ Read callees data s items loop := by
  obtain ⟨hne, hcont⟩ := encodes_iff.mp hitems
  obtain ⟨loop, hruns, hproc⟩ := exists_runs (firstLoop s) hrouter hcont
  obtain ⟨hpos, hresult⟩ := hproc.itemsProcessed hne
  exact ⟨loop, hruns, hitems, hpos, maxNodeOperatorsPerItem_of_runs hruns hcont, hresult⟩

theorem read_of_runs (hruns : Runs (fun loop => loop.dataOffset < data.length)
      (processExtraDataRound callees data) (firstLoop s) loop)
    (hpos : 0 < loop.maxNodeOperatorsPerItem) : ∃ items, Read callees data s items loop := by
  obtain ⟨items, hcont, hproc⟩ := exists_items hruns (Nat.zero_le _) (Nat.zero_le _)
  have hne : items ≠ [] := by
    rcases hproc.maxNodeOperatorsPerItem.mp hpos with hzero | hne
    · exact absurd hzero (Nat.lt_irrefl 0)
    · exact hne
  exact ⟨items, encodes_iff.mpr ⟨hne, hcont⟩, hpos, maxNodeOperatorsPerItem_of_runs hruns hcont,
    (hproc.itemsProcessed hne).2⟩

theorem Read.length_lt (h : Read callees data s items loop) : items.length < 2 ^ 256 := by
  have := h.encodes.length_le
  omega

end read

/--
**One check is enough for all the items.** As long as no call of the router reverts, processing the
extra data ends. It succeeds if and only if the list is expected, and it is the encoding of as many
items as the report says, none of which has more node operators than the sanity checker allows. If
one of the items has more, it is the sanity checker that reverts.
-/
theorem extraData_within_limits_iff (checker : OracleReportSanityChecker) (o : AccountingOracle)
    (env : AccountingEnv) (data : CalldataBytes) (s : ρ)
    (hrouter : ∀ call s, ∃ s', router call s = .ok s') :
    ∃ outcome, (∀ rounds, data.length < rounds →
        o.submitReportExtraDataList (checkedBy checker router) data env rounds s = some outcome) ∧
      ((∃ result, outcome = .ok result) ↔ ListExpected o env data.bytes ∧
        ∃ items, Encodes data.bytes items ∧ items.length = o.extraData.itemsCount ∧
          ∀ item ∈ items, item.nodeOperatorIds.length
            ≤ checker.getOracleReportLimits.maxNodeOperatorsPerExtraDataItemCount) ∧
      ∀ items, ListExpected o env data.bytes → Encodes data.bytes items →
        (∃ item ∈ items, checker.getOracleReportLimits.maxNodeOperatorsPerExtraDataItemCount
          < item.nodeOperatorIds.length) → outcome = .error (.error .callee) := by
  cases hexpected : o.checkExtraDataList data env with
  | error r =>
    have hnot : ¬ ListExpected o env data.bytes := by
      intro hlist
      rw [(checkExtraDataList_eq_ok (u := ())).mpr hlist] at hexpected
      cases hexpected
    refine ⟨.error r, fun rounds _ => ?_, ⟨?_, ?_⟩, ?_⟩
    · simp only [submitReportExtraDataList, hexpected]
    · rintro ⟨_, hresult⟩
      cases hresult
    · rintro ⟨hlist, -⟩
      exact absurd hlist hnot
    · intro items hlist
      exact absurd hlist hnot
  | ok u =>
    have hlist := checkExtraDataList_eq_ok.mp hexpected
    obtain ⟨outcome, hrounds, hruns⟩ := exists_whileLoop
      (fun loop : ExtraDataLoop ρ => data.length - loop.dataOffset)
      (lt_of_processExtraDataRound (checkedBy checker router)) (firstLoop s)
    refine ⟨outcome >>= finishExtraDataItems (checkedBy checker router) >>=
      o.finishExtraDataList (checkedBy checker router), fun rounds hlt => ?_, ⟨?_, ?_⟩, ?_⟩
    · simp only [submitReportExtraDataList, hexpected, processExtraDataItems]
      rw [show (⟨0, 0, 0, ⟨0, 0, 0, 0⟩, s⟩ : ExtraDataLoop ρ) = firstLoop s from rfl,
        hrounds rounds hlt]
      rfl
    · rintro ⟨⟨o', s'⟩, hresult⟩
      simp only [bind_eq_ok] at hresult
      obtain ⟨processed, ⟨loop, hloop, hitems⟩, hfinish⟩ := hresult
      have hpos : 0 < loop.maxNodeOperatorsPerItem := by
        simp only [finishExtraDataItems, bind_eq_ok, ensure_eq_ok] at hitems
        obtain ⟨_, hpos, -⟩ := hitems
        exact hpos
      obtain ⟨items, hread⟩ := read_of_runs ((hruns loop).mp hloop) hpos
      rw [finishExtraDataItems_checkedBy hpos] at hitems
      split at hitems
      · rename_i hle
        cases hitems
        rw [hread.most, greatest_le_iff] at hle
        exact ⟨hlist, items, hread.encodes,
          ((finishExtraDataList_eq_ok hread.length_lt hread.processed).mp hfinish).1, hle.2⟩
      · cases hitems
    · rintro ⟨-, items, hitems, hcount, hall⟩
      obtain ⟨loop, hloop, hread⟩ := exists_read (checkedBy checker router) s hrouter hitems
      obtain ⟨s', hcall⟩ := hrouter .reportingFinished loop.router
      have hle := greatest_le_iff.mpr ⟨Nat.zero_le _, hall⟩
      rw [← hread.most] at hle
      refine ⟨_, bind_eq_ok.mpr ⟨(loop.iter, loop.router), ?_,
        (finishExtraDataList_eq_ok hread.length_lt hread.processed).mpr ⟨hcount, hcall, rfl⟩⟩⟩
      rw [(hruns loop).mpr hloop, ok_bind, finishExtraDataItems_checkedBy hread.pos, if_pos hle]
    · rintro items - hitems ⟨item, hitem, hlt⟩
      obtain ⟨loop, hloop, hread⟩ := exists_read (checkedBy checker router) s hrouter hitems
      have hnot : ¬ loop.maxNodeOperatorsPerItem
          ≤ checker.getOracleReportLimits.maxNodeOperatorsPerExtraDataItemCount := by
        rw [hread.most, greatest_le_iff]
        rintro ⟨-, hall⟩
        exact absurd (hall item hitem) (Nat.not_le_of_lt hlt)
      rw [(hruns loop).mpr hloop, ok_bind, finishExtraDataItems_checkedBy hread.pos, if_neg hnot]
      rfl

/-- A list of two items, with at most two node operators where 100 are allowed. -/
theorem extraData_within_limits_two_items :
    ∃ result, exampleOracle.submitReportExtraDataList
      (checkedBy OracleReportSanityChecker.exampleAfter exampleCallees.router) exampleData
      exampleEnv 105 [] = some (.ok result) := by
  have hcalls : ∀ call calls, ∃ calls', exampleCallees.router call calls = .ok calls' :=
    fun call calls => ⟨_, rfl⟩
  obtain ⟨outcome, hrounds, hiff, -⟩ := extraData_within_limits_iff
    OracleReportSanityChecker.exampleAfter exampleOracle exampleEnv exampleData
    ([] : List RouterCall) hcalls
  have hexpected : ListExpected exampleOracle exampleEnv exampleData.bytes :=
    ⟨.inr rfl, by decide, rfl, by decide, rfl, rfl, by decide, rfl⟩
  obtain ⟨result, rfl⟩ := hiff.mpr ⟨hexpected, _, encodes_exampleItems, rfl, by decide +kernel⟩
  exact ⟨result, hrounds 105 (by decide)⟩

end ExtraData

end Catalist
