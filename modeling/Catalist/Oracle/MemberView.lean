import Catalist.Oracle.FastLane
import Catalist.Oracle.Processing

/-!
# What a member is told

`getConsensusStateForMember` tells an oracle daemon whether it may submit a report now, and what the
member has reported so far. The daemon goes by that, so it has to be exactly what `submitReport`
then does: a report is counted if and only if the member may report, and it is a new one.
-/

namespace Catalist

open Solidity HashConsensus Transition

structure MemberConsensusState where
  currentFrameRefSlot : Nat
  currentFrameConsensusReport : Hash
  isMember : Bool
  isFastLane : Bool
  canReport : Bool
  lastMemberReportRefSlot : Nat
  currentFrameMemberReport : Hash
deriving DecidableEq, Repr

namespace ConsensusSystem

variable (s : ConsensusSystem)

/-- The part of `getConsensusStateForMember` that keeps other members out of the fast lane. -/
def canReportAt (frame : ConsensusFrame) (slot : Nat) (isFastLane : Bool) :
    Call OracleError Bool := do
  let canReport : Bool :=
    slot ≤ frame.reportProcessingDeadlineSlot ∧ s.lastProcessingRefSlot < frame.refSlot
  if isFastLane = false ∧ canReport = true then do
    let fastLaneEnd ← checkedAdd 256 frame.refSlot s.consensus.frameConfig.fastLaneLengthSlots
    return fastLaneEnd < slot
  else return canReport

def getConsensusStateForMember (env : Env) (addr : Address) :
    Call OracleError MemberConsensusState := do
  let c := s.consensus
  let frame ← c.getCurrentFrame env
  let (currentFrameConsensusReport, _, _) := c.getConsensusReport frame.refSlot c.quorum
  let index1b := c.memberIndices1b addr
  if index1b ≠ 0 then do
    let index := index1b - 1
    let memberState ← getIndex c.memberStates index
    let slot ← computeSlotAtTimestamp c.chain env.timestamp
    let isFastLane ← c.isFastLaneMember index frame.index
    let canReport ← s.canReportAt frame slot isFastLane
    return {
      currentFrameRefSlot := frame.refSlot
      currentFrameConsensusReport := currentFrameConsensusReport
      isMember := true
      isFastLane := isFastLane
      canReport := canReport
      lastMemberReportRefSlot := memberState.lastReportRefSlot
      currentFrameMemberReport := c.memberReport frame.refSlot memberState }
  else return {
    currentFrameRefSlot := frame.refSlot
    currentFrameConsensusReport := currentFrameConsensusReport
    isMember := false
    isFastLane := false
    canReport := false
    lastMemberReportRefSlot := 0
    currentFrameMemberReport := ZERO_HASH }

/--
The processor is initialized, the time is the start of a slot, and there is room in the counters
for one more report.
-/
structure Ready (s : ConsensusSystem) (env : Env) : Prop where
  initialized : s.processor.contractVersion ≠ 0
  start : AtSlotStart s.consensus.chain env.timestamp
  times : s.consensus.TimesFit env.timestamp
  fastLane : s.consensus.frameConfig.fastLaneLengthSlots < 2 ^ 64
  variants : s.consensus.reportVariantsLength < 2 ^ 64
  members : s.consensus.memberStates.length + 1 < 2 ^ 64

variable {s} {s' : ConsensusSystem} {env : Env} {frame : ConsensusFrame} {report : Hash}
  {k : Nat} {m : MemberState}

/-- Where the sender is among the members, in the current frame. -/
structure Stands (s : ConsensusSystem) (env : Env) (frame : ConsensusFrame) (k : Nat)
    (m : MemberState) : Prop where
  frame : s.consensus.getCurrentFrame env = .ok frame
  genesis : s.consensus.chain.genesisTime ≤ env.timestamp
  index : s.consensus.memberIndices1b env.sender = k + 1
  state : s.consensus.memberStates[k]? = some m

/-- The member is in the fast lane, or the fast lane is over. -/
def LaneOpen (s : ConsensusSystem) (env : Env) (frame : ConsensusFrame) (k : Nat) : Prop :=
  s.consensus.isFastLaneMember k frame.index = .ok true ∨
    frame.refSlot + s.consensus.frameConfig.fastLaneLengthSlots
      < slotAt s.consensus.chain env.timestamp

theorem genesis_of_frame (h : s.consensus.getCurrentFrame env = .ok frame) :
    s.consensus.chain.genesisTime ≤ env.timestamp := by
  simp only [getCurrentFrame, getFrameAtTimestamp, bind_eq_ok] at h
  obtain ⟨index, hindex, -⟩ := h
  exact (computeFrameIndex_ok_cases hindex).1

theorem requireFastLane_eq_ok (h : Stands s env frame k m) (henrolled : Enrolled s.consensus)
    (hquorum : 0 < s.consensus.quorum) (hrefSlot : frame.refSlot < 2 ^ 64)
    (hready : s.consensus.frameConfig.fastLaneLengthSlots < 2 ^ 64) {u : Unit} :
    s.consensus.requireFastLane (slotAt s.consensus.chain env.timestamp) k frame = .ok u ↔
      LaneOpen s env frame k := by
  have hk := (List.getElem?_eq_some_iff.mp h.state).1
  unfold requireFastLane LaneOpen
  rw [checkedAdd_of (by omega), ok_bind, isFastLaneMember_eq henrolled hquorum hk]
  split
  · next hle =>
    simp only [ok_bind, require_eq_ok, Except.ok.injEq]
    constructor
    · exact .inl
    · rintro (hmember | hover)
      · exact hmember
      · omega
  · next hover =>
    exact iff_of_true (pure_eq_ok.mpr rfl) (.inr (Nat.not_le.mp hover))

theorem canReportAt_of (isFastLane : Bool) {slot : Nat} (hrefSlot : frame.refSlot < 2 ^ 64)
    (hfast : s.consensus.frameConfig.fastLaneLengthSlots < 2 ^ 64)
    (hslot : slot ≤ frame.reportProcessingDeadlineSlot) :
    ∃ canReport, s.canReportAt frame slot isFastLane = .ok canReport ∧
      (canReport = true ↔ s.lastProcessingRefSlot < frame.refSlot ∧
        (isFastLane = true ∨
          frame.refSlot + s.consensus.frameConfig.fastLaneLengthSlots < slot)) := by
  unfold canReportAt
  by_cases hidle : s.lastProcessingRefSlot < frame.refSlot
  · cases isFastLane with
    | true => exact ⟨true, by simp [hslot, hidle, pure, Except.pure], by simp [hidle]⟩
    | false =>
      refine ⟨decide (frame.refSlot + s.consensus.frameConfig.fastLaneLengthSlots < slot), ?_,
        by simp [hidle]⟩
      rw [checkedAdd_of (by omega)]
      simp [hslot, hidle, pure, Except.pure]
  · exact ⟨false, by simp [hidle, pure, Except.pure], by simp [hidle]⟩

/-- **What the view tells a member.** -/
theorem Stands.view (h : Stands s env frame k m) (henrolled : Enrolled s.consensus)
    (hquorum : 0 < s.consensus.quorum) (hrefSlot : frame.refSlot < 2 ^ 64)
    (hfast : s.consensus.frameConfig.fastLaneLengthSlots < 2 ^ 64)
    (hslot : slotAt s.consensus.chain env.timestamp ≤ frame.reportProcessingDeadlineSlot) :
    ∃ view, s.getConsensusStateForMember env env.sender = .ok view ∧
      view.currentFrameRefSlot = frame.refSlot ∧
      view.currentFrameMemberReport = s.consensus.memberReport frame.refSlot m ∧
      (view.canReport = true ↔
        s.lastProcessingRefSlot < frame.refSlot ∧ LaneOpen s env frame k) := by
  have hk := (List.getElem?_eq_some_iff.mp h.state).1
  have hlane := isFastLaneMember_eq henrolled hquorum hk frame.index
  obtain ⟨canReport, hcan, hiff⟩ := canReportAt_of
    (decide (Rotation.offset s.consensus.memberStates.length
      (s.consensus.fastLaneStart frame.index) k
        < min s.consensus.quorum s.consensus.memberStates.length)) hrefSlot hfast hslot
  have hslotAt := computeSlotAtTimestamp_eq_ok.mpr
    ⟨h.genesis, (rfl : slotAt s.consensus.chain env.timestamp = _)⟩
  unfold getConsensusStateForMember
  simp only [h.frame, ok_bind, ne_eq, h.index, Nat.add_sub_cancel,
    getIndex_eq_ok.mpr h.state, hslotAt, hlane, hcan]
  refine ⟨_, rfl, rfl, rfl, hiff.trans ?_⟩
  simp [LaneOpen, hlane]

/-! ## What a submission has passed -/

/-- The first variant of the slot with this hash, or the index of a new one. -/
structure FirstVariant (c : HashConsensus) (slot : Nat) (report : Hash) (v : Nat) : Prop where
  le : v ≤ c.variantsLengthFor slot
  hash : v < c.variantsLengthFor slot → (c.reportVariants v).hash = report
  before : ∀ i < v, (c.reportVariants i).hash ≠ report

/-- The same reports of the members, and the same quorum. -/
structure SameReports (c c' : HashConsensus) : Prop where
  memberStates : c'.memberStates = c.memberStates
  reportVariants : c'.reportVariants = c.reportVariants
  quorum : c'.quorum = c.quorum

theorem sameReports_consensusReached {i : Nat} (h : s.consensusReached env frame report i = .ok s') :
    SameReports s.consensus s'.consensus := by
  rcases consensusReached_ok_cases h with ⟨-, -, rfl⟩ | ⟨_, _, -, rfl⟩
  · exact ⟨rfl, rfl, rfl⟩
  · exact ⟨rfl, rfl, rfl⟩

theorem sameReports_consensusNotReached (h : s.consensusNotReached env frame = .ok s') :
    SameReports s.consensus s'.consensus := by
  rcases consensusNotReached_ok_cases h with ⟨-, rfl⟩ | ⟨-, _, -, rfl⟩
  · exact ⟨rfl, rfl, rfl⟩
  · exact ⟨rfl, rfl, rfl⟩

/-- The guards that a submitted report has passed. -/
theorem submitReport_guards {slot version : Nat}
    (h : s.submitReport env slot report version = .ok s') :
    ∃ frame k m, Stands s env frame k m ∧ slot = frame.refSlot ∧
      version = s.processor.consensusVersion ∧ report ≠ ZERO_HASH ∧
      s.consensus.requireFastLane (slotAt s.consensus.chain env.timestamp) k frame = .ok () ∧
      (slot ≤ s.lastProcessingRefSlot ∧ s' = s ∨
        s.lastProcessingRefSlot < slot ∧ ∃ v c', FirstVariant s.consensus slot report v ∧
          (m.lastReportRefSlot = slot → v ≠ m.lastReportVariantIndex) ∧
          ReportCounted s.consensus c' slot k v m report ∧ SameReports c' s'.consensus) := by
  simp only [submitReport, getMemberIndex, bind_eq_ok, require_eq_ok, pure_eq_ok, getIndex_eq_ok,
    computeSlotAtTimestamp_eq_ok] at h
  obtain ⟨_, hzero, _, hsmall, _, hreport, k, ⟨_, hmember, rfl⟩, m, hm, _, hversion, _,
    ⟨hgenesis, rfl⟩, frame, hframe, _, hslot, _, hdeadline, _, hlane, h⟩ := h
  refine ⟨frame, _, m, ⟨hframe, hgenesis, (Nat.succ_pred_eq_of_ne_zero hmember).symm, hm⟩, hslot,
    hversion, hreport, hlane, ?_⟩
  split at h
  · next hle =>
    simp only [bind_eq_ok, require_eq_ok, pure_eq_ok] at h
    obtain ⟨_, _, rfl⟩ := h
    exact .inl ⟨hle, rfl⟩
  · next hlt =>
    simp only [bind_eq_ok, setIndex_eq_ok] at h
    obtain ⟨v, hv, ⟨c₁, lost⟩, hwithdraw, ⟨c₂, support⟩, hcount, _, ⟨_, rfl⟩, h⟩ := h
    obtain ⟨-, hhash, hle, hbefore⟩ := findVariant_ok_cases hv (by decide)
    obtain ⟨hcounted, -⟩ := reportCounted_of hhash (hle (Nat.zero_le _)) hwithdraw hcount
    refine .inr ⟨Nat.not_le.mp hlt, v, _, ⟨hle (Nat.zero_le _), hhash, fun i hi =>
      hbefore i (Nat.zero_le i) hi⟩, fun hsame => ?_, hcounted, ?_⟩
    · rcases withdrawReport_ok_cases hwithdraw with ⟨hother, -, -⟩ | ⟨-, -, hne, -, -, -⟩
      · exact absurd hsame hother
      · exact hne
    · split at h
      · exact sameReports_consensusReached h
      · split at h
        · exact sameReports_consensusNotReached h
        · cases h
          exact ⟨rfl, rfl, rfl⟩

/-- It is the variant of the member exactly if the member has reported this hash. -/
theorem FirstVariant.eq_iff {c : HashConsensus} {slot v : Nat}
    (h : FirstVariant c slot report v) (hkept : WellKept c slot) (hpos : 0 < slot)
    (hreport : report ≠ ZERO_HASH) (hm : m ∈ c.memberStates) :
    m.lastReportRefSlot = slot ∧ v = m.lastReportVariantIndex ↔ report = c.memberReport slot m := by
  unfold memberReport
  constructor
  · rintro ⟨hsame, rfl⟩
    rw [if_pos hsame]
    exact (h.hash (hkept.variant_lt hpos m hm hsame)).symm
  · intro heq
    split at heq
    · next hsame =>
      have hlt := hkept.variant_lt hpos m hm hsame
      refine ⟨hsame, ?_⟩
      rcases Nat.lt_trichotomy v m.lastReportVariantIndex with hless | hequal | hgreater
      · have hv := h.hash (hless.trans hlt)
        exact hkept.hash_inj v (hless.trans hlt) _ hlt (hv.trans heq)
      · exact hequal
      · exact absurd heq.symm (h.before _ hgreater)
    · exact absurd heq hreport

/-! ## A submission that passes -/

theorem ensures_findVariant_of {c : HashConsensus} {n i : Nat} (hn : n < 2 ^ 64)
    {allowed : Revert OracleError → Prop} :
    Ensures allowed (c.findVariant report n i) fun _ => True := by
  fun_induction c.findVariant report n i with
  | case1 i hlt hne ih =>
    rw [checkedAdd_of (by omega), ok_bind]
    exact ih
  | case2 i hlt heq => exact ensures_pure trivial
  | case3 i hge => exact ensures_pure trivial

/-- The deadline of the current frame is a time. -/
theorem Receptive.deadline (h : Receptive s env)
    (hframe : s.consensus.getCurrentFrame env = .ok frame) :
    ∃ deadline, computeTimestampAtSlot s.consensus.chain frame.reportProcessingDeadlineSlot
        = .ok deadline ∧ env.timestamp ≤ deadline ∧ deadline < 2 ^ 64 := by
  obtain ⟨harrived, -⟩ := getCurrentFrame_ok_cases h.fits hframe
  have hbound := h.times harrived
  rw [← deadlineSlot_eq h.fits hframe] at hbound
  have hcompute : computeTimestampAtSlot s.consensus.chain frame.reportProcessingDeadlineSlot
      = .ok (s.consensus.chain.genesisTime
        + frame.reportProcessingDeadlineSlot * s.consensus.chain.secondsPerSlot) := by
    rw [computeTimestampAtSlot, checkedMul_of (by omega), ok_bind, checkedAdd_of (by omega)]
  exact ⟨_, hcompute, timestamp_le_deadline h.fits h.times h.start hframe hcompute⟩

theorem Receptive.exists_consensusReached {i : Nat} (h : Receptive s env)
    (hframe : s.consensus.getCurrentFrame env = .ok frame)
    (hlt : s.lastProcessingRefSlot < frame.refSlot) (hreport : report ≠ ZERO_HASH) :
    ∃ s', s.consensusReached env frame report i = .ok s' := by
  obtain ⟨-, hrefSlot, hslot, -⟩ := getCurrentFrame_ok_cases h.fits hframe
  obtain ⟨deadline, hdeadline, htime, hbound⟩ := h.deadline hframe
  obtain ⟨p, hp⟩ := BaseOracle.exists_submitConsensusReport (s.nested env) h.contract.symm
    (hrefSlot ▸ h.report_le) hlt htime hreport hslot hbound
  unfold ConsensusSystem.consensusReached
  split
  · simp only [ConsensusSystem.submitReportForProcessing, hdeadline, ok_bind]
    exact ⟨_, bind_eq_ok.mpr ⟨p, hp, rfl⟩⟩
  · exact ⟨s, rfl⟩

theorem Receptive.exists_consensusNotReached (h : Receptive s env)
    (hframe : s.consensus.getCurrentFrame env = .ok frame)
    (hlt : s.lastProcessingRefSlot < frame.refSlot) :
    ∃ s', s.consensusNotReached env frame = .ok s' := by
  obtain ⟨-, hrefSlot, -⟩ := getCurrentFrame_ok_cases h.fits hframe
  obtain ⟨p, hp⟩ := BaseOracle.exists_discardConsensusReport (s.nested env) h.contract.symm
    (hrefSlot ▸ h.report_le) hlt
  unfold ConsensusSystem.consensusNotReached
  split
  · exact ⟨_, bind_eq_ok.mpr ⟨p, hp, rfl⟩⟩
  · exact ⟨s, rfl⟩

theorem exists_withdrawReport {c : HashConsensus} {slot n v : Nat} (hquorum : 0 < c.quorum)
    (hvote : m.lastReportRefSlot = slot → m.lastReportVariantIndex < n ∧
      v ≠ m.lastReportVariantIndex ∧ 0 < (c.reportVariants m.lastReportVariantIndex).support) :
    ∃ c' lost, c.withdrawReport m slot n v = .ok (c', lost) ∧
      (c'.reportVariants v).support = (c.reportVariants v).support := by
  unfold withdrawReport
  by_cases hsame : slot = m.lastReportRefSlot
  · obtain ⟨hlt, hne, hsupport⟩ := hvote hsame.symm
    rw [if_pos hsame]
    simp only [ensure_of hlt, require_of hne, checkedSub_of hsupport, checkedSub_of hquorum, ok_bind]
    exact ⟨_, _, rfl, by simp [Function.update_of_ne hne]⟩
  · rw [if_neg hsame]
    exact ⟨c, false, rfl, rfl⟩

theorem exists_countReport (c : HashConsensus) (report : Hash) {n v : Nat} (hn : n < 2 ^ 64)
    (hsupport : v < n → (c.reportVariants v).support + 1 < 2 ^ 64) :
    ∃ c' support, c.countReport report n v = .ok (c', support) := by
  unfold countReport
  by_cases hv : v < n
  · rw [if_pos hv]
    simp only [checkedAdd_of (hsupport hv), ok_bind]
    exact ⟨_, _, rfl⟩
  · rw [if_neg hv]
    simp only [checkedAdd_of (show n + 1 < 2 ^ 256 by omega), ok_bind]
    exact ⟨_, _, rfl⟩

/-- A member that stands behind a variant is counted there. -/
theorem support_pos {c : HashConsensus} {slot : Nat} (hkept : WellKept c slot)
    (hcounted : Counted c slot) (hpos : 0 < slot) (hm : m ∈ c.memberStates)
    (hsame : m.lastReportRefSlot = slot) :
    0 < (c.reportVariants m.lastReportVariantIndex).support := by
  rw [hcounted _ (hkept.variant_lt hpos m hm hsame)]
  exact List.countP_pos_iff.mpr ⟨m, hm, by simp [hsame]⟩

theorem support_le {c : HashConsensus} {slot i : Nat} (hcounted : Counted c slot)
    (hi : i < c.variantsLengthFor slot) :
    (c.reportVariants i).support ≤ c.memberStates.length := by
  rw [hcounted i hi]
  exact List.countP_le_length

/-- A member of a committee that is in order, at a time when a report may come. -/
structure Seated (s : ConsensusSystem) (env : Env) (frame : ConsensusFrame) (k : Nat)
    (m : MemberState) : Prop extends Stands s env frame k m where
  agreement : Agreement s env.timestamp
  receptive : Receptive s env
  ready : Ready s env

/-- No report is processed for the frame yet, and the member need not wait for the fast lane. -/
def MayReport (s : ConsensusSystem) (env : Env) (frame : ConsensusFrame) (k : Nat) : Prop :=
  s.lastProcessingRefSlot < frame.refSlot ∧ LaneOpen s env frame k

namespace Seated

theorem refSlot_lt (h : Seated s env frame k m) : frame.refSlot < 2 ^ 64 :=
  (getCurrentFrame_ok_cases h.agreement.fits h.frame).2.2.1

theorem slot_le (h : Seated s env frame k m) :
    slotAt s.consensus.chain env.timestamp ≤ frame.reportProcessingDeadlineSlot :=
  (getCurrentFrame_ok_cases h.agreement.fits h.frame).2.2.2

theorem kept (h : Seated s env frame k m) : WellKept s.consensus frame.refSlot := by
  obtain ⟨-, hrefSlot, -⟩ := getCurrentFrame_ok_cases h.agreement.fits h.frame
  exact hrefSlot ▸ h.agreement.inv.kept

theorem enrolled (h : Seated s env frame k m) : Enrolled s.consensus :=
  ⟨h.agreement.inv.kept.indexed, h.agreement.inv.kept.lengths⟩

theorem mem (h : Seated s env frame k m) : m ∈ s.consensus.memberStates := List.mem_of_getElem? h.state

theorem quorum_pos (h : Seated s env frame k m) : 0 < s.consensus.quorum := by
  have hk := (List.getElem?_eq_some_iff.mp h.state).1
  rcases h.agreement.inv.majoritarian with hmajority | ⟨-, hnone, -⟩
  · omega
  · rw [hnone] at hk
    exact absurd hk (Nat.not_lt_zero k)

theorem counted (h : Seated s env frame k m) (hlt : s.lastProcessingRefSlot < frame.refSlot) :
    Counted s.consensus frame.refSlot := by
  obtain ⟨-, hrefSlot, -⟩ := getCurrentFrame_ok_cases h.agreement.fits h.frame
  rw [hrefSlot] at hlt ⊢
  exact (h.agreement.inv.sync hlt).counted

theorem requireFastLane_iff (h : Seated s env frame k m) :
    s.consensus.requireFastLane (slotAt s.consensus.chain env.timestamp) k frame = .ok () ↔
      LaneOpen s env frame k :=
  requireFastLane_eq_ok h.toStands h.enrolled h.quorum_pos h.refSlot_lt h.ready.fastLane

end Seated

/-- **A new report of a member that may report is counted.** -/
theorem Seated.exists_submitReport (h : Seated s env frame k m) (hmay : MayReport s env frame k)
    (hreport : report ≠ ZERO_HASH) (hnew : report ≠ s.consensus.memberReport frame.refSlot m) :
    ∃ s', s.submitReport env frame.refSlot report s.processor.consensusVersion = .ok s' := by
  obtain ⟨hlt, hopen⟩ := hmay
  have hslot := h.refSlot_lt
  have hdeadline := h.slot_le
  have hlane := h.requireFastLane_iff.mpr hopen
  have hpos : 0 < frame.refSlot := by omega
  have hkept := h.kept
  have hcounted := h.counted hlt
  have hreceptive := h.receptive
  have hready := h.ready
  obtain ⟨hk, -⟩ := List.getElem?_eq_some_iff.mp h.state
  have hm := h.mem
  have hquorum := h.quorum_pos
  have hlength : s.consensus.variantsLengthFor frame.refSlot < 2 ^ 64 := by
    unfold variantsLengthFor
    split
    · decide
    · exact hready.variants
  have hmember : s.consensus.getMemberIndex env.sender = .ok k := by
    rw [getMemberIndex, h.index, require_of (Nat.succ_ne_zero k)]
    rfl
  have hslotAt := computeSlotAtTimestamp_eq_ok.mpr
    ⟨h.genesis, (rfl : slotAt s.consensus.chain env.timestamp = _)⟩
  have hensures : Ensures (fun _ => False)
      (s.submitReport env frame.refSlot report s.processor.consensusVersion) fun _ => True := by
    unfold ConsensusSystem.submitReport
    simp only [require_of hpos.ne', require_of hslot, require_of hreport, hmember,
      getIndex_eq_ok.mpr h.state, require_of, hslotAt, h.frame, require_of hdeadline, hlane,
      ok_bind, if_neg (Nat.not_le.mpr hlt)]
    refine (ensures_findVariant_of hlength).bind_ok fun v hv => ?_
    obtain ⟨-, hhash, hle, hbefore⟩ := findVariant_ok_cases hv (by decide)
    have hfirst : FirstVariant s.consensus frame.refSlot report v :=
      ⟨hle (Nat.zero_le _), hhash, fun i hi => hbefore i (Nat.zero_le i) hi⟩
    have hvote : m.lastReportRefSlot = frame.refSlot →
        m.lastReportVariantIndex < s.consensus.variantsLengthFor frame.refSlot ∧
        v ≠ m.lastReportVariantIndex ∧
        0 < (s.consensus.reportVariants m.lastReportVariantIndex).support := fun hsame =>
      ⟨hkept.variant_lt hpos m hm hsame, fun heq =>
        hnew ((hfirst.eq_iff hkept hpos hreport hm).mp ⟨hsame, heq⟩),
        support_pos hkept hcounted hpos hm hsame⟩
    have hroom : v < s.consensus.variantsLengthFor frame.refSlot →
        (s.consensus.reportVariants v).support + 1 < 2 ^ 64 := fun hv =>
      Nat.lt_of_le_of_lt (Nat.succ_le_succ (support_le hcounted hv)) hready.members
    -- the counters that the slot begins with are those of an earlier slot
    obtain ⟨c₁, lost, hwithdraw, hsupport⟩ := exists_withdrawReport
      (c := { s.consensus with
        reportingState := { s.consensus.reportingState with
          lastReportRefSlot := frame.refSlot } }) hquorum hvote
    obtain ⟨c₂, support, hcount⟩ := exists_countReport c₁ report hlength fun hv =>
      hsupport ▸ hroom hv
    obtain ⟨variants, length, rfl⟩ := countedReport_tables hwithdraw hcount
    unfold variantsLengthFor at hwithdraw hcount
    simp only [hwithdraw, ok_bind]
    rw [hcount, ok_bind, setIndex_eq_ok.mpr ⟨hk, rfl⟩, ok_bind]
    split
    · refine ensures_of_exists (Receptive.exists_consensusReached ?_ h.frame hlt hreport)
      exact { hreceptive with }
    · split
      · refine ensures_of_exists (Receptive.exists_consensusNotReached ?_ h.frame hlt)
        exact { hreceptive with }
      · exact ensures_pure trivial
  obtain ⟨s', hs', -⟩ := hensures.exists_ok
  exact ⟨s', hs'⟩

/-! ## The view and the submission -/

theorem Stands.unique {frame' : ConsensusFrame} {k' : Nat} {m' : MemberState}
    (h : Stands s env frame k m) (h' : Stands s env frame' k' m') :
    frame = frame' ∧ k = k' ∧ m = m' := by
  have hk : k = k' := Nat.succ.inj (h.index.symm.trans h'.index)
  subst hk
  refine ⟨?_, rfl, Option.some.inj (h.state.symm.trans h'.state)⟩
  have hframe := h.frame.symm.trans h'.frame
  cases hframe
  rfl

/-- A sender with an index is a member. -/
theorem exists_stands (henrolled : Enrolled s.consensus)
    (hframe : s.consensus.getCurrentFrame env = .ok frame)
    (hmember : s.consensus.memberIndices1b env.sender ≠ 0) :
    ∃ k m, Stands s env frame k m := by
  have hindex := (Nat.succ_pred_eq_of_ne_zero hmember).symm
  have haddr := (henrolled.indexed env.sender _).mp hindex
  have hk := (List.getElem?_eq_some_iff.mp haddr).1
  rw [← henrolled.lengths] at hk
  exact ⟨_, _, hframe, genesis_of_frame hframe, hindex, List.getElem?_eq_getElem hk⟩

/-- Where the sender is after its report was counted. -/
theorem Stands.reported {c' : HashConsensus} {v : Nat} (h : Stands s env frame k m)
    (hsame : SameMembers s.consensus s'.consensus)
    (hcounted : ReportCounted s.consensus c' frame.refSlot k v m report)
    (hreports : SameReports c' s'.consensus) :
    ∃ m', Stands s' env frame k m' ∧ s'.consensus.memberReport frame.refSlot m' = report ∧
      s'.consensus.quorum = s.consensus.quorum := by
  have hk := (List.getElem?_eq_some_iff.mp h.state).1
  refine ⟨⟨frame.refSlot, v⟩, ⟨?_, ?_, ?_, ?_⟩, ?_, ?_⟩
  · have hframe := h.frame
    unfold getCurrentFrame at hframe ⊢
    rw [hsame.chain, hsame.frameConfig]
    exact hframe
  · rw [hsame.chain]
    exact h.genesis
  · rw [hsame.indices]
    exact h.index
  · rw [hreports.memberStates, hcounted.tables]
    exact List.getElem?_set_self hk
  · rw [memberReport, if_pos rfl, hreports.reportVariants]
    exact hcounted.hash_self
  · rw [hreports.quorum, hcounted.tables]

/-- A sender without an index is told that it is no member. -/
theorem view_of_not_member (hframe : s.consensus.getCurrentFrame env = .ok frame)
    (hmember : s.consensus.memberIndices1b env.sender = 0) :
    s.getConsensusStateForMember env env.sender = .ok ⟨frame.refSlot,
      (s.consensus.getConsensusReport frame.refSlot s.consensus.quorum).1, false, false, false, 0,
      ZERO_HASH⟩ := by
  unfold getConsensusStateForMember
  simp [hframe, hmember, pure, Except.pure]

theorem member_of_submitReport {slot version : Nat}
    (hsubmit : s.submitReport env slot report version = .ok s') :
    s.consensus.memberIndices1b env.sender ≠ 0 := by
  obtain ⟨_, k, _, hstands, -⟩ := submitReport_guards hsubmit
  rw [hstands.index]
  exact Nat.succ_ne_zero k

namespace Seated

variable {slot version : Nat}

theorem view (h : Seated s env frame k m) :
    ∃ view, s.getConsensusStateForMember env env.sender = .ok view ∧
      view.currentFrameRefSlot = frame.refSlot ∧
      view.currentFrameMemberReport = s.consensus.memberReport frame.refSlot m ∧
      (view.canReport = true ↔ MayReport s env frame k) :=
  h.toStands.view h.enrolled h.quorum_pos h.refSlot_lt h.ready.fastLane h.slot_le

/-- While the member may not report, its submissions change nothing. -/
theorem eq_of_submitReport (h : Seated s env frame k m) (hnot : ¬ MayReport s env frame k)
    (hsubmit : s.submitReport env slot report version = .ok s') : s' = s := by
  obtain ⟨_, _, _, hstands', rfl, -, -, hlane, ⟨-, rfl⟩ | ⟨hlt, -⟩⟩ := submitReport_guards hsubmit
  · rfl
  · obtain ⟨rfl, rfl, rfl⟩ := h.toStands.unique hstands'
    exact absurd ⟨hlt, h.requireFastLane_iff.mp hlane⟩ hnot

/-- What a member that may report can submit. -/
theorem exists_submitReport_iff (h : Seated s env frame k m) (hmay : MayReport s env frame k) :
    (∃ s', s.submitReport env slot report version = .ok s') ↔
      slot = frame.refSlot ∧ version = s.processor.consensusVersion ∧ report ≠ ZERO_HASH ∧
        report ≠ s.consensus.memberReport frame.refSlot m := by
  constructor
  · rintro ⟨s', hsubmit⟩
    obtain ⟨_, _, _, hstands', rfl, hversion, hreport, -, hcases⟩ := submitReport_guards hsubmit
    obtain ⟨rfl, rfl, rfl⟩ := h.toStands.unique hstands'
    have hidle := hmay.1
    obtain ⟨hle, -⟩ | ⟨hlt, v, c', hfirst, hne, -⟩ := hcases
    · omega
    · refine ⟨rfl, hversion, hreport, fun heq => ?_⟩
      obtain ⟨hsame, hindex⟩ := (hfirst.eq_iff h.kept (by omega) hreport h.mem).mpr heq
      exact hne hsame hindex
  · rintro ⟨rfl, rfl, hreport, hnew⟩
    exact h.exists_submitReport hmay hreport hnew

/-- After a submission the view tells the new report. -/
theorem view_after (h : Seated s env frame k m) (hmay : MayReport s env frame k)
    (hsubmit : s.submitReport env slot report version = .ok s') :
    ∃ view', s'.getConsensusStateForMember env env.sender = .ok view' ∧
      view'.currentFrameMemberReport = report := by
  have hsame := sameMembers_submitReport hsubmit
  obtain ⟨_, _, _, hstands', rfl, -, -, -, hcases⟩ := submitReport_guards hsubmit
  obtain ⟨rfl, rfl, rfl⟩ := h.toStands.unique hstands'
  have hidle := hmay.1
  obtain ⟨hle, -⟩ | ⟨-, v, c', -, -, hcounted, hreports⟩ := hcases
  · omega
  · obtain ⟨m', hstands', hreport, hquorum'⟩ := h.toStands.reported hsame hcounted hreports
    obtain ⟨view', hview', -, hreport', -⟩ := hstands'.view (hsame.enrolled h.enrolled)
      (hquorum' ▸ h.quorum_pos) h.refSlot_lt (hsame.frameConfig ▸ h.ready.fastLane)
      (hsame.chain ▸ h.slot_le)
    exact ⟨view', hview', hreport'.trans hreport⟩

end Seated

/--
**A member is told exactly what it can do.** In every run whose slots fit, at the start of a slot,
with an initialized processor and room for one more report in 64 bits: while the view says that the
sender cannot report, no submission of the sender changes anything. While it says that the sender
can, a submission succeeds if and only if it is for the slot of the view, of the version that the
processor expects, and not the empty report nor the one that the view tells; from then on, the view
tells the new report.
-/
theorem canReport_exact (hreach : Reachable Deployed AttachedStep (s, env.timestamp))
    (hready : Ready s env) (hframe : s.consensus.getCurrentFrame env = .ok frame) :
    ∃ view, s.getConsensusStateForMember env env.sender = .ok view ∧
      (view.canReport = false → ∀ slot report version s',
        s.submitReport env slot report version = .ok s' → s' = s) ∧
      (view.canReport = true → ∀ slot report version,
        ((∃ s', s.submitReport env slot report version = .ok s') ↔
          slot = view.currentFrameRefSlot ∧ version = s.processor.consensusVersion ∧
            report ≠ ZERO_HASH ∧ report ≠ view.currentFrameMemberReport) ∧
        ∀ s', s.submitReport env slot report version = .ok s' →
          ∃ view', s'.getConsensusStateForMember env env.sender = .ok view' ∧
            view'.currentFrameMemberReport = report) := by
  have ha : Agreement s env.timestamp := agreement_of_reachable hreach
  have hreceptive := (receptive_of_reachable hreach hready.initialized hready.start
    hready.times).1
  by_cases hmember : s.consensus.memberIndices1b env.sender = 0
  · refine ⟨_, view_of_not_member hframe hmember, fun _ slot report version s' hsubmit => ?_,
      fun hcan => by cases hcan⟩
    exact absurd hmember (member_of_submitReport hsubmit)
  · obtain ⟨k, m, hstands⟩ :=
      exists_stands ⟨ha.inv.kept.indexed, ha.inv.kept.lengths⟩ hframe hmember
    have h : Seated s env frame k m := ⟨hstands, ha, hreceptive, hready⟩
    obtain ⟨view, hview, hviewSlot, hviewReport, hcan⟩ := h.view
    refine ⟨view, hview, fun hcannot slot report version s' hsubmit => ?_,
      fun hmay slot report version => ⟨?_, fun s' hsubmit => h.view_after (hcan.mp hmay) hsubmit⟩⟩
    · refine h.eq_of_submitReport (fun hmay => ?_) hsubmit
      rw [hcan.mpr hmay] at hcannot
      cases hcannot
    · rw [hviewSlot, hviewReport]
      exact h.exists_submitReport_iff (hcan.mp hmay)

theorem reachable_exampleMember : Reachable Deployed AttachedStep (exampleMember, 384) := by
  have h₁ := reachable_exampleScheduled.step (.clock (.configure
    (@ConfigCall.setRoles (exampleEnv 1 1 Nat.one_pos) _ fun _ _ => true) (by decide +kernel)))
  have h₂ : Reachable Deployed AttachedStep (exampleInitialized, 1) :=
    h₁.step (.setup (@SetupCall.initializeOracle _ _ 1 0 (eq_ok_result _ (by decide +kernel))))
  have h₃ : Reachable Deployed AttachedStep (exampleMember, 1) := h₂.step (AttachedStep.call
    (@ContractCall.addMember (exampleEnv 1 1 Nat.one_pos) _ _ 3 1
      (eq_ok_result _ (by decide +kernel))))
  exact h₃.step (.clock (@ClockStep.tick _ _ _ 384 (by decide) (by decide +kernel)))

/-- The member of the example has not reported yet: a hash passes, the empty report does not. -/
theorem canReport_exact_one_member :
    (∃ s', exampleMember.submitReport (exampleEnv 3 384 exampleReportTime_pos) 31 5 1 = .ok s') ∧
    ¬ ∃ s', exampleMember.submitReport (exampleEnv 3 384 exampleReportTime_pos) 31 ZERO_HASH 1
      = .ok s' := by
  have hview : exampleMember.getConsensusStateForMember (exampleEnv 3 384 exampleReportTime_pos) 3
      = .ok ⟨31, ZERO_HASH, true, true, true, 0, ZERO_HASH⟩ := by decide +kernel
  have hversion : exampleMember.processor.consensusVersion = 1 := by decide +kernel
  have hframe : exampleMember.consensus.getCurrentFrame (exampleEnv 3 384 exampleReportTime_pos)
      = .ok ⟨0, 31, 63⟩ := by decide +kernel
  have hready : Ready exampleMember (exampleEnv 3 384 exampleReportTime_pos) :=
    ⟨by decide +kernel, by decide +kernel, by decide +kernel, by decide +kernel,
      by decide +kernel, by decide +kernel⟩
  obtain ⟨view, hsame, -, hcan⟩ := canReport_exact reachable_exampleMember hready hframe
  cases hview.symm.trans hsame
  exact ⟨(hcan rfl 31 5 1).1.mpr ⟨rfl, hversion.symm, by decide, by decide⟩,
    fun hzero => ((hcan rfl 31 ZERO_HASH 1).1.mp hzero).2.2.1 rfl⟩

end ConsensusSystem

end Catalist
