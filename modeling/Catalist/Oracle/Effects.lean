import Catalist.Oracle.HashConsensus
import Catalist.Lib.IndexTable

/-!
# What each function of the hash consensus does

One lemma for each function of `HashConsensus`: what a successful call has checked and what it
leaves. The lemmas about frames assume that the slots of the current frame fit 64 bits; then the
deadline slot of the frame is never behind the current slot, and the branches for a missed
deadline are never taken.
-/

namespace Catalist

open Solidity IndexTable

namespace HashConsensus

/-- The slots of the current frame fit 64 bits. -/
def SlotsFit (c : HashConsensus) (timestamp : Nat) : Prop :=
  c.frameConfig.initialEpoch ≤ epochAt c.chain timestamp →
    deadlineSlotAt c.chain c.frameConfig timestamp < 2 ^ 64

/-- The reference slot of the current frame. -/
def currentRefSlot (c : HashConsensus) (timestamp : Nat) : Nat :=
  refSlotAt c.chain c.frameConfig timestamp

/-- The number of variants reported for a slot, as `_submitReport` counts them. -/
def variantsLengthFor (c : HashConsensus) (slot : Nat) : Nat :=
  if c.reportingState.lastReportRefSlot ≠ slot then 0 else c.reportVariantsLength

/-- The contract with another record of the last consensus. -/
def withConsensus (c : HashConsensus) (refSlot variantIndex : Nat) : HashConsensus :=
  { c with
    reportingState := { c.reportingState with
      lastConsensusRefSlot := refSlot, lastConsensusVariantIndex := variantIndex } }

variable {c : HashConsensus} {env : Env} {report : Hash}

theorem getCurrentFrame_ok_cases {frame : ConsensusFrame} (hfit : c.SlotsFit env.timestamp)
    (h : c.getCurrentFrame env = .ok frame) :
    c.frameConfig.initialEpoch ≤ epochAt c.chain env.timestamp ∧
      frame.refSlot = c.currentRefSlot env.timestamp ∧ frame.refSlot < 2 ^ 64 ∧
      slotAt c.chain env.timestamp ≤ frame.reportProcessingDeadlineSlot := by
  obtain ⟨harrived, hne, -, hrefSlot, hdeadline⟩ := getFrameAtTimestamp_ok_cases h
  have hbound := hfit harrived
  have hle : refSlotAt c.chain c.frameConfig env.timestamp
      ≤ deadlineSlotAt c.chain c.frameConfig env.timestamp := refSlotAt_le_deadlineSlotAt
  rw [Nat.mod_eq_of_lt (by omega)] at hrefSlot hdeadline
  refine ⟨harrived, hrefSlot, by omega, ?_⟩
  rw [hdeadline]
  exact slotAt_le_deadlineSlotAt hne harrived

theorem setFrameConfigInternal_ok_cases {c' : HashConsensus} {initialEpoch epochsPerFrame fast : Nat}
    (h : c.setFrameConfigInternal initialEpoch epochsPerFrame fast = .ok c') :
    c' = { c with
      frameConfig :=
        { initialEpoch := initialEpoch, epochsPerFrame := epochsPerFrame,
          fastLaneLengthSlots := fast } } := by
  simp only [setFrameConfigInternal, toUint64, bind_eq_ok, pure_eq_ok, require_eq_ok] at h
  obtain ⟨_, _, _, _, _, _, _, ⟨_, _, rfl⟩, _, ⟨_, _, rfl⟩, _, ⟨_, _, rfl⟩, rfl⟩ := h
  rfl

/-- The index that `_getConsensusReport` finds has the quorum. -/
theorem findSupported_eq_some {quorum n i j : Nat} (h : c.findSupported quorum n i = some j) :
    j < n ∧ quorum ≤ (c.reportVariants j).support := by
  fun_induction c.findSupported quorum n i with
  | case1 i hlt hq =>
    obtain rfl : i = j := by simpa using h
    exact ⟨hlt, hq⟩
  | case2 i hlt hq ih => exact ih h
  | case3 i hge => cases h

/-- If `_getConsensusReport` finds none, no variant from `i` on has the quorum. -/
theorem findSupported_eq_none {quorum n i : Nat} (h : c.findSupported quorum n i = none) :
    ∀ j, i ≤ j → j < n → (c.reportVariants j).support < quorum := by
  fun_induction c.findSupported quorum n i with
  | case1 i hlt hq => cases h
  | case2 i hlt hq ih =>
    intro j hij hjn
    rcases Nat.eq_or_lt_of_le hij with rfl | hlt'
    · exact Nat.not_le.mp hq
    · exact ih h j hlt' hjn
  | case3 i hge =>
    intro j hij hjn
    omega

/-- The variant that a report has, or the first free index. -/
theorem findVariant_ok_cases {report : Hash} {n i j : Nat}
    (h : c.findVariant report n i = .ok j) (hi : i < 2 ^ 64) :
    j < 2 ^ 64 ∧ (j < n → (c.reportVariants j).hash = report) ∧ (i ≤ n → j ≤ n) ∧
      ∀ k, i ≤ k → k < j → (c.reportVariants k).hash ≠ report := by
  fun_induction c.findVariant report n i with
  | case1 i hlt hne ih =>
    simp only [bind_eq_ok, checkedAdd_eq_ok] at h
    obtain ⟨_, ⟨hbound, -⟩, hrest⟩ := h
    obtain ⟨hj, hhash, hle, hbefore⟩ := ih hrest hbound
    refine ⟨hj, hhash, fun _ => hle hlt, fun k hik hkj => ?_⟩
    rcases Nat.eq_or_lt_of_le hik with rfl | hlt'
    · exact hne
    · exact hbefore k hlt' hkj
  | case2 i hlt heq =>
    obtain rfl := pure_eq_ok.mp h
    exact ⟨hi, fun _ => Classical.not_not.mp heq, id, fun k hik hki => by omega⟩
  | case3 i hge =>
    obtain rfl := pure_eq_ok.mp h
    exact ⟨hi, fun hlt => absurd hlt hge, id, fun k hik hki => by omega⟩

/-! ## Parts of the member and report functions -/

/-- The contract without the member at `index`, whose place the last member takes. -/
def withoutMember (c : HashConsensus) (addr last : Address) (index : Nat) : HashConsensus :=
  { c with
    memberStates := swapRemove c.memberStates index
    memberAddresses := swapRemove c.memberAddresses index
    memberIndices1b :=
      Function.update (Function.update c.memberIndices1b last (index + 1)) addr 0 }

/-- The contract after the support of a variant was lowered by one. -/
def withoutSupport (c : HashConsensus) (index : Nat) : HashConsensus :=
  { c with
    reportVariants := Function.update c.reportVariants index
      { c.reportVariants index with support := (c.reportVariants index).support - 1 } }

/-- The two branches of `_removeMember` leave the same tables. -/
theorem moveLastMember_ok_cases {c' : HashConsensus} {addr last : Address} {index : Nat}
    (hlen : c.memberStates.length = c.memberAddresses.length)
    (haddr : c.memberAddresses[index]? = some addr)
    (hlast : c.memberAddresses[c.memberAddresses.length - 1]? = some last)
    (h : c.moveLastMember index (c.memberStates.length - 1) = .ok c') :
    { c' with
      memberStates := c'.memberStates.dropLast
      memberAddresses := c'.memberAddresses.dropLast
      memberIndices1b := Function.update c'.memberIndices1b addr 0 } =
    c.withoutMember addr last index := by
  have hindex : index < c.memberStates.length := by
    rw [hlen]
    exact (List.getElem?_eq_some_iff.mp haddr).1
  unfold moveLastMember at h
  split at h
  · next hne =>
    simp only [bind_eq_ok, getIndex_eq_ok, setIndex_eq_ok, pure_eq_ok] at h
    obtain ⟨addrToMove, hmove, _, ⟨_, rfl⟩, lastState, hstate, _, ⟨_, rfl⟩, rfl⟩ := h
    rw [hlen, hlast, Option.some.injEq] at hmove
    subst hmove
    simp only [withoutMember, swapRemove_of_getLast hlast, swapRemove_of_getLast hstate]
  · next heq =>
    obtain rfl := pure_eq_ok.mp h
    -- the member is the last one: moving it onto itself changes nothing
    have heq : index = c.memberStates.length - 1 := Classical.not_not.mp heq
    obtain rfl : last = addr := by
      rw [hlen] at heq
      exact Option.some.inj (hlast.symm.trans (heq ▸ haddr))
    obtain ⟨state, hstate⟩ : ∃ state, c.memberStates[c.memberStates.length - 1]? = some state :=
      ⟨_, List.getElem?_eq_getElem (by omega)⟩
    rw [withoutMember, ← swapRemove_of_getLast hlast, ← swapRemove_of_getLast hstate, Function.update_idem]
    have hsetStates : c.memberStates.set index state = c.memberStates := by
      rw [heq]
      exact set_of_getElem? hstate
    have hsetAddresses : c.memberAddresses.set index last = c.memberAddresses :=
      set_of_getElem? haddr
    rw [hsetStates, hsetAddresses]

theorem withdrawReport_ok_cases {c' : HashConsensus} {m : MemberState} {slot n v : Nat}
    {lost : Bool} (h : c.withdrawReport m slot n v = .ok (c', lost)) :
    (m.lastReportRefSlot ≠ slot ∧ c' = c ∧ lost = false) ∨
    (m.lastReportRefSlot = slot ∧ m.lastReportVariantIndex < n ∧ v ≠ m.lastReportVariantIndex ∧
      1 ≤ (c.reportVariants m.lastReportVariantIndex).support ∧
      (lost = true ↔ (c.reportVariants m.lastReportVariantIndex).support = c.quorum) ∧
      c' = c.withoutSupport m.lastReportVariantIndex) := by
  unfold withdrawReport at h
  split at h
  · next heq =>
    simp only [bind_eq_ok, ensure_eq_ok, require_eq_ok, checkedSub_eq_ok, pure_eq_ok,
      Prod.mk.injEq] at h
    obtain ⟨_, hlt, _, hne, _, ⟨hpos, rfl⟩, _, ⟨hquorum, rfl⟩, rfl, rfl⟩ := h
    refine .inr ⟨heq.symm, hlt, hne, hpos, ?_, rfl⟩
    rw [decide_eq_true_iff]
    omega
  · next hne =>
    simp only [pure_eq_ok, Prod.mk.injEq] at h
    exact .inl ⟨fun heq => hne heq.symm, h.1.symm, h.2.symm⟩

theorem countReport_ok_cases {c' : HashConsensus} {n v support : Nat}
    (h : c.countReport report n v = .ok (c', support)) :
    (v < n ∧ support = (c.reportVariants v).support + 1 ∧
      c' = { c with
        reportVariants := Function.update c.reportVariants v
          { c.reportVariants v with support := (c.reportVariants v).support + 1 } }) ∨
    (n ≤ v ∧ support = 1 ∧
      c' = { c with
        reportVariants := Function.update c.reportVariants v { hash := report, support := 1 }
        reportVariantsLength := n + 1 }) := by
  unfold countReport at h
  split at h
  · next hlt =>
    simp only [bind_eq_ok, checkedAdd_eq_ok, pure_eq_ok, Prod.mk.injEq] at h
    obtain ⟨_, ⟨_, rfl⟩, rfl, rfl⟩ := h
    exact .inl ⟨hlt, rfl, rfl⟩
  · next hge =>
    simp only [bind_eq_ok, checkedAdd_eq_ok, pure_eq_ok, Prod.mk.injEq] at h
    obtain ⟨_, ⟨_, rfl⟩, rfl, rfl⟩ := h
    exact .inr ⟨Nat.not_lt.mp hge, rfl, rfl⟩

/--
What `_submitReport` writes before it looks at the consensus: member `k`, whose state was `m`,
now stands behind variant `v`.
-/
structure ReportCounted (c c' : HashConsensus) (slot k v : Nat) (m : MemberState) (report : Hash) :
    Prop where
  tables : c' = { c with
    memberStates := c.memberStates.set k { lastReportRefSlot := slot, lastReportVariantIndex := v }
    reportingState := { c.reportingState with lastReportRefSlot := slot }
    reportVariants := c'.reportVariants
    reportVariantsLength := c'.reportVariantsLength }
  length : c'.reportVariantsLength = max (c.variantsLengthFor slot) (v + 1)
  hash_self : (c'.reportVariants v).hash = report
  hash_old : ∀ i < c.variantsLengthFor slot, (c'.reportVariants i).hash = (c.reportVariants i).hash
  /-- One member fewer behind the variant of the withdrawn report, one more behind `v`. -/
  support : ∀ i < c.variantsLengthFor slot,
    (c'.reportVariants i).support
        + (if m.lastReportRefSlot = slot ∧ m.lastReportVariantIndex = i then 1 else 0)
      = (c.reportVariants i).support + (if i = v then 1 else 0)
  support_new : c.variantsLengthFor slot ≤ v → (c'.reportVariants v).support = 1

theorem reportCounted_of {c₁ c₂ : HashConsensus} {slot k v support : Nat} {m : MemberState}
    {lost : Bool}
    (hv : v < c.variantsLengthFor slot → (c.reportVariants v).hash = report)
    (hle : v ≤ c.variantsLengthFor slot)
    (hwithdraw : { c with
        reportingState := { c.reportingState with lastReportRefSlot := slot } }.withdrawReport m slot
      (c.variantsLengthFor slot) v = .ok (c₁, lost))
    (hcount : c₁.countReport report (c.variantsLengthFor slot) v = .ok (c₂, support)) :
    ReportCounted c { c₂ with
        memberStates := c₂.memberStates.set k
          { lastReportRefSlot := slot, lastReportVariantIndex := v } } slot k v m report ∧
      support = (c₂.reportVariants v).support := by
  -- the variants of an earlier slot do not count: their length is read as zero
  have hlength : v < c.variantsLengthFor slot → c.reportVariantsLength = c.variantsLengthFor slot := by
    unfold variantsLengthFor
    split
    · intro hlt
      omega
    · exact fun _ => rfl
  -- two choices: has the member reported for the slot before, and is the variant an old one
  rcases withdrawReport_ok_cases hwithdraw with ⟨hother, rfl, -⟩ | ⟨hsame, hlt, hne, hpos, -, rfl⟩
  · rcases countReport_ok_cases hcount with ⟨hlt, rfl, rfl⟩ | ⟨hge, rfl, rfl⟩
    · refine ⟨⟨rfl, ?_, ?_, ?_, ?_, fun hge => absurd hlt (Nat.not_lt.mpr hge)⟩, by simp⟩
      · rw [Nat.max_eq_left hlt]
        exact hlength hlt
      · simpa using hv hlt
      · intro i _
        rcases eq_or_ne i v with rfl | hi
        · simp
        · simp [hi]
      · intro i _
        rcases eq_or_ne i v with rfl | hi
        · simp [hother]
        · simp [hother, hi]
    · obtain rfl : v = c.variantsLengthFor slot := Nat.le_antisymm hle hge
      refine ⟨⟨rfl, ?_, ?_, ?_, ?_, fun _ => by simp⟩, by simp⟩
      · simp
      · simp
      · intro i hi
        simp [hi.ne]
      · intro i hi
        simp [hother, hi.ne]
  · rcases countReport_ok_cases hcount with ⟨hltv, rfl, rfl⟩ | ⟨hge, rfl, rfl⟩
    · refine ⟨⟨rfl, ?_, ?_, ?_, ?_, fun hge => absurd hltv (Nat.not_lt.mpr hge)⟩, by simp⟩
      · rw [Nat.max_eq_left hltv]
        exact hlength hltv
      · simpa [withoutSupport, hne] using hv hltv
      · intro i _
        rcases eq_or_ne i v with rfl | hi
        · simp [withoutSupport, hne]
        · rcases eq_or_ne i m.lastReportVariantIndex with rfl | hi'
          · simp [withoutSupport, hi]
          · simp [withoutSupport, hi, hi']
      · intro i _
        rcases eq_or_ne i v with rfl | hi
        · simp [withoutSupport, hne, hne.symm]
        · rcases eq_or_ne i m.lastReportVariantIndex with rfl | hi'
          · simp only at hpos
            simp [withoutSupport, hi, hsame]
            omega
          · simp [withoutSupport, hi, hi', hi'.symm]
    · obtain rfl : v = c.variantsLengthFor slot := Nat.le_antisymm hle hge
      refine ⟨⟨rfl, ?_, ?_, ?_, ?_, fun _ => by simp⟩, by simp⟩
      · simp
      · simp
      · intro i hi
        rcases eq_or_ne i m.lastReportVariantIndex with rfl | hi'
        · simp [withoutSupport, hi.ne]
        · simp [withoutSupport, hi.ne, hi']
      · intro i hi
        rcases eq_or_ne i m.lastReportVariantIndex with rfl | hi'
        · simp only at hpos
          simp [withoutSupport, hi.ne, hsame]
          omega
        · simp [withoutSupport, hi.ne, hi', hi'.symm]

end HashConsensus

namespace ConsensusSystem

open HashConsensus

variable {s s' : ConsensusSystem} {env : Env} {frame : ConsensusFrame} {report : Hash}

/-! ## Report processing -/

/-- The system after a submission that left the processor as `p`. -/
def submitted (s : ConsensusSystem) (frame : ConsensusFrame) (report : Hash) (p : BaseOracle) :
    ConsensusSystem :=
  { s with
    processors := Function.update s.processors s.consensus.reportProcessor p
    submissions := s.submissions ++ [{
      processor := s.consensus.reportProcessor
      report := report
      refSlot := frame.refSlot
      quorum := s.consensus.quorum
      supporters := s.consensus.supporters frame.refSlot report }] }

theorem submitReportForProcessing_ok_cases
    (h : s.submitReportForProcessing env frame report = .ok s') :
    ∃ deadline p,
      s.processor.submitConsensusReport (s.nested env) report frame.refSlot deadline = .ok p ∧
      s' = s.submitted frame report p := by
  simp only [submitReportForProcessing, bind_eq_ok, pure_eq_ok] at h
  obtain ⟨deadline, _, p, hp, rfl⟩ := h
  exact ⟨deadline, p, hp, rfl⟩

theorem consensusReached_ok_cases {i : Nat}
    (h : s.consensusReached env frame report i = .ok s') :
    (s.consensus.reportingState.lastConsensusRefSlot = frame.refSlot ∧
      s.consensus.reportingState.lastConsensusVariantIndex = i ∧ s' = s) ∨
    (∃ deadline p,
      s.processor.submitConsensusReport (s.nested env) report frame.refSlot deadline = .ok p ∧
      s' = ({ s with
        consensus := s.consensus.withConsensus (frame.refSlot % 2 ^ 64) (i % 2 ^ 64) } :
          ConsensusSystem).submitted frame report p) := by
  unfold consensusReached at h
  split at h
  · exact .inr (submitReportForProcessing_ok_cases h)
  · next hsame =>
    simp only [not_or, Classical.not_not] at hsame
    exact .inl ⟨hsame.1, hsame.2, (pure_eq_ok.mp h).symm⟩

theorem consensusNotReached_ok_cases (h : s.consensusNotReached env frame = .ok s') :
    (s.consensus.reportingState.lastConsensusRefSlot ≠ frame.refSlot ∧ s' = s) ∨
    (s.consensus.reportingState.lastConsensusRefSlot = frame.refSlot ∧ ∃ p,
      s.processor.discardConsensusReport (s.nested env) frame.refSlot = .ok p ∧
      s' = { s with
        consensus :=
          s.consensus.withConsensus 0 s.consensus.reportingState.lastConsensusVariantIndex
        processors := Function.update s.processors s.consensus.reportProcessor p }) := by
  unfold consensusNotReached at h
  split at h
  · next heq =>
    simp only [cancelReportProcessing, bind_eq_ok, pure_eq_ok] at h
    obtain ⟨p, hp, rfl⟩ := h
    exact .inr ⟨heq, p, hp, rfl⟩
  · next hne => exact .inl ⟨hne, (pure_eq_ok.mp h).symm⟩

/-- `_checkConsensus` submits a supported report, drops an unsupported one, or does nothing. -/
theorem checkConsensus_ok_cases {quorum : Nat} (hfit : s.consensus.SlotsFit env.timestamp)
    (h : s.checkConsensus env quorum = .ok s') :
    ∃ frame, s.consensus.getCurrentFrame env = .ok frame ∧
      ((frame.refSlot ≤ s.lastProcessingRefSlot ∧ s' = s) ∨
       (s.lastProcessingRefSlot < frame.refSlot ∧
        ((∃ i, s.consensus.reportingState.lastReportRefSlot = frame.refSlot ∧
            i < s.consensus.reportVariantsLength ∧
            quorum ≤ (s.consensus.reportVariants i).support ∧
            s.consensusReached env frame (s.consensus.reportVariants i).hash i = .ok s') ∨
         ((s.consensus.reportingState.lastReportRefSlot = frame.refSlot →
            ∀ i < s.consensus.reportVariantsLength,
              (s.consensus.reportVariants i).support < quorum) ∧
          s.consensusNotReached env frame = .ok s')))) := by
  simp only [checkConsensus, bind_eq_ok, computeSlotAtTimestamp_eq_ok] at h
  obtain ⟨frame, hframe, _, ⟨_, rfl⟩, h⟩ := h
  obtain ⟨-, -, -, hdeadline⟩ := getCurrentFrame_ok_cases hfit hframe
  refine ⟨frame, hframe, ?_⟩
  rw [if_neg (Nat.not_lt.mpr hdeadline)] at h
  split at h
  · next hle => exact .inl ⟨hle, (pure_eq_ok.mp h).symm⟩
  · next hlt =>
    refine .inr ⟨Nat.not_le.mp hlt, ?_⟩
    unfold getConsensusReport at h
    split_ifs at h with hreport
    · exact .inr ⟨fun heq => absurd heq hreport, h⟩
    · have hreport := Classical.not_not.mp hreport
      cases hfind : s.consensus.findSupported quorum s.consensus.reportVariantsLength 0 with
      | some i =>
        rw [hfind] at h
        obtain ⟨hi, hq⟩ := findSupported_eq_some hfind
        exact .inl ⟨i, hreport, hi, hq, h⟩
      | none =>
        rw [hfind] at h
        exact .inr ⟨fun _ i hi => findSupported_eq_none hfind i (Nat.zero_le i) hi, h⟩

/-- The system with another quorum. -/
def withQuorum (s : ConsensusSystem) (quorum : Nat) : ConsensusSystem :=
  { s with consensus := { s.consensus with quorum := quorum } }

theorem setQuorumAndCheckConsensus_ok_cases {quorum totalMembers : Nat}
    (h : s.setQuorumAndCheckConsensus env quorum totalMembers = .ok s') :
    totalMembers / 2 < quorum ∧
      ((epochAt s.consensus.chain env.timestamp < s.consensus.frameConfig.initialEpoch ∧
          s' = s.withQuorum quorum) ∨
        (s.withQuorum quorum).checkConsensus env quorum = .ok s') := by
  simp only [setQuorumAndCheckConsensus, bind_eq_ok, require_eq_ok,
    computeEpochAtTimestamp_eq_ok] at h
  obtain ⟨_, hquorum, _, _, _, ⟨_, rfl⟩, h⟩ := h
  refine ⟨hquorum, ?_⟩
  split at h
  · exact .inr h
  · next hyet => exact .inl ⟨Nat.not_le.mp hyet, (pure_eq_ok.mp h).symm⟩

/-! ## Members -/

theorem addMember_ok_cases {addr : Address} {quorum : Nat}
    (h : s.addMember env addr quorum = .ok s') :
    s.consensus.memberIndices1b addr = 0 ∧
    setQuorumAndCheckConsensus { s with
      consensus := { s.consensus with
        memberStates :=
          s.consensus.memberStates ++ [{ lastReportRefSlot := 0, lastReportVariantIndex := 0 }]
        memberAddresses := s.consensus.memberAddresses ++ [addr]
        memberIndices1b :=
          Function.update s.consensus.memberIndices1b addr (s.consensus.memberStates.length + 1) } }
      env quorum (s.consensus.memberStates.length + 1) = .ok s' := by
  simp only [addMember, bind_eq_ok, require_eq_ok, List.length_append, List.length_singleton] at h
  obtain ⟨_, _, _, hnew, _, _, h⟩ := h
  exact ⟨by simpa [isMember] using hnew, h⟩

theorem cancelMemberReport_ok_cases {memberState : MemberState}
    (h : s.cancelMemberReport env memberState = .ok s') :
    (memberState.lastReportRefSlot = 0 ∧ s' = s) ∨
    (∃ frame, s.consensus.getCurrentFrame env = .ok frame ∧
      ((memberState.lastReportRefSlot = frame.refSlot ∧ s.lastProcessingRefSlot < frame.refSlot ∧
          1 ≤ (s.consensus.reportVariants memberState.lastReportVariantIndex).support ∧
          s' = { s with
            consensus := s.consensus.withoutSupport memberState.lastReportVariantIndex }) ∨
        ((memberState.lastReportRefSlot ≠ frame.refSlot ∨
            frame.refSlot ≤ s.lastProcessingRefSlot) ∧ s' = s))) := by
  unfold cancelMemberReport at h
  split at h
  · simp only [bind_eq_ok] at h
    obtain ⟨frame, hframe, h⟩ := h
    refine .inr ⟨frame, hframe, ?_⟩
    split at h
    · next hboth =>
      simp only [bind_eq_ok, checkedSub_eq_ok, pure_eq_ok] at h
      obtain ⟨_, ⟨hpos, rfl⟩, rfl⟩ := h
      exact .inl ⟨hboth.1, hboth.2, hpos, rfl⟩
    · next hnot =>
      refine .inr ⟨?_, (pure_eq_ok.mp h).symm⟩
      by_contra hcon
      simp only [not_or, Classical.not_not, Nat.not_le] at hcon
      exact hnot hcon
  · next hzero => exact .inl ⟨by omega, (pure_eq_ok.mp h).symm⟩

theorem removeMember_ok_cases {addr : Address} {quorum : Nat}
    (hlen : s.consensus.memberStates.length = s.consensus.memberAddresses.length)
    (htable : Indexed s.consensus.memberAddresses s.consensus.memberIndices1b)
    (h : s.removeMember env addr quorum = .ok s') :
    ∃ index last memberState s₁,
      s.consensus.memberAddresses[index]? = some addr ∧
      s.consensus.memberAddresses[s.consensus.memberAddresses.length - 1]? = some last ∧
      s.consensus.memberStates[index]? = some memberState ∧
      cancelMemberReport { s with consensus := s.consensus.withoutMember addr last index } env
        memberState = .ok s₁ ∧
      s₁.setQuorumAndCheckConsensus env quorum (s.consensus.memberStates.length - 1) = .ok s' := by
  simp only [removeMember, getMemberIndex, bind_eq_ok, require_eq_ok, pure_eq_ok, checkedSub_eq_ok,
    ensure_eq_ok, getIndex_eq_ok] at h
  obtain ⟨_, _, index, ⟨_, hmember, rfl⟩, _, ⟨_, rfl⟩, _, _, memberState, hstate, c', hmove, s₁,
    hcancel, hcheck⟩ := h
  have haddr : s.consensus.memberAddresses[s.consensus.memberIndices1b addr - 1]? = some addr :=
    (htable addr _).mp (by omega)
  obtain ⟨last, hlast⟩ : ∃ last,
      s.consensus.memberAddresses[s.consensus.memberAddresses.length - 1]? = some last :=
    ⟨_, List.getElem?_eq_getElem (by omega)⟩
  refine ⟨_, last, memberState, s₁, haddr, hlast, hstate, ?_, hcheck⟩
  rw [moveLastMember_ok_cases hlen haddr hlast hmove] at hcancel
  exact hcancel

/-! ## Reports -/

/--
A report is either dropped, because the report for the slot is being processed, or counted; then
the consensus is reached, lost or left as it is.
-/
theorem submitReport_ok_cases {slot version : Nat} (h : s.submitReport env slot report version = .ok s') :
    ∃ frame, s.consensus.getCurrentFrame env = .ok frame ∧ slot = frame.refSlot ∧
      ((slot ≤ s.lastProcessingRefSlot ∧ s' = s) ∨
       (s.lastProcessingRefSlot < slot ∧ report ≠ ZERO_HASH ∧
        ∃ k m v c', s.consensus.memberStates[k]? = some m ∧ v < 2 ^ 64 ∧
          v ≤ s.consensus.variantsLengthFor slot ∧
          (∀ i < v, (s.consensus.reportVariants i).hash ≠ report) ∧
          (m.lastReportRefSlot = slot → m.lastReportVariantIndex < s.consensus.variantsLengthFor slot ∧
            v ≠ m.lastReportVariantIndex) ∧
          ReportCounted s.consensus c' slot k v m report ∧
          ((c'.quorum ≤ (c'.reportVariants v).support ∧
              consensusReached { s with consensus := c' } env frame report v = .ok s') ∨
           ((c'.reportVariants v).support < c'.quorum ∧
            ((m.lastReportRefSlot = slot ∧
                (s.consensus.reportVariants m.lastReportVariantIndex).support = s.consensus.quorum ∧
                consensusNotReached { s with consensus := c' } env frame = .ok s') ∨
              ((m.lastReportRefSlot = slot →
                (s.consensus.reportVariants m.lastReportVariantIndex).support
                  ≠ s.consensus.quorum) ∧
                s' = { s with consensus := c' })))))) := by
  simp only [submitReport, getMemberIndex, bind_eq_ok, require_eq_ok, pure_eq_ok, getIndex_eq_ok,
    computeSlotAtTimestamp_eq_ok] at h
  obtain ⟨_, hzero, _, hsmall, _, hreport, k, ⟨_, hmember, rfl⟩, m, hm, _, _, _, ⟨_, rfl⟩, frame,
    hframe, _, hslot, _, _, _, _, h⟩ := h
  refine ⟨frame, hframe, hslot, ?_⟩
  split at h
  · -- a report for a slot that is being processed: only a first one is let through
    next hle =>
    simp only [bind_eq_ok, require_eq_ok, pure_eq_ok] at h
    obtain ⟨_, _, rfl⟩ := h
    exact .inl ⟨hle, rfl⟩
  · next hlt =>
    simp only [bind_eq_ok, setIndex_eq_ok] at h
    obtain ⟨v, hv, ⟨c₁, lost⟩, hwithdraw, ⟨c₂, support⟩, hcount, _, ⟨_, rfl⟩, h⟩ := h
    obtain ⟨hv64, hhash, hle, hbefore⟩ := findVariant_ok_cases hv (by decide)
    obtain ⟨hcounted, rfl⟩ := reportCounted_of hhash (hle (Nat.zero_le _)) hwithdraw hcount
    refine .inr ⟨Nat.not_le.mp hlt, hreport, _, m, v, _, hm, hv64, hle (Nat.zero_le _),
      fun i hi => hbefore i (Nat.zero_le i) hi, ?_, hcounted, ?_⟩
    · intro hsame
      rcases withdrawReport_ok_cases hwithdraw with ⟨hother, -, -⟩ | ⟨-, hlt, hne, -, -, -⟩
      · exact absurd hsame hother
      · exact ⟨hlt, hne⟩
    · split_ifs at h with hquorum hlost
      · exact .inl ⟨hquorum, h⟩
      · refine .inr ⟨Nat.not_le.mp hquorum, .inl ?_⟩
        rcases withdrawReport_ok_cases hwithdraw with ⟨-, -, hfalse⟩ | ⟨hsame, -, -, -, hiff, -⟩
        · rw [hfalse] at hlost
          cases hlost
        · exact ⟨hsame, hiff.mp hlost, h⟩
      · refine .inr ⟨Nat.not_le.mp hquorum, .inr ⟨fun hsame hat => hlost ?_, (pure_eq_ok.mp h).symm⟩⟩
        rcases withdrawReport_ok_cases hwithdraw with ⟨hother, -, -⟩ | ⟨-, -, -, -, hiff, -⟩
        · exact absurd hsame hother
        · exact hiff.mpr hat

/-! ## Configuration -/

theorem setFrameConfig_ok_cases {epochsPerFrame fast : Nat}
    (h : s.setFrameConfig env epochsPerFrame fast = .ok s') :
    s.consensus.frameConfig.initialEpoch ≤ epochAt s.consensus.chain env.timestamp ∧
    s' = { s with
      consensus := { s.consensus with
        frameConfig :=
          { initialEpoch :=
              frameStartEpochAt s.consensus.chain s.consensus.frameConfig env.timestamp
            epochsPerFrame := epochsPerFrame, fastLaneLengthSlots := fast } } } := by
  simp only [ConsensusSystem.setFrameConfig, HashConsensus.setFrameConfig, bind_eq_ok, pure_eq_ok,
    require_eq_ok] at h
  obtain ⟨c, ⟨_, _, start, hstart, hc⟩, rfl⟩ := h
  obtain ⟨harrived, rfl⟩ := computeFrameStartEpoch_ok_cases hstart
  obtain rfl := setFrameConfigInternal_ok_cases hc
  exact ⟨harrived, rfl⟩

theorem setFastLaneLengthSlots_ok_cases {fast : Nat}
    (h : s.setFastLaneLengthSlots env fast = .ok s') :
    s' = { s with
      consensus := { s.consensus with
        frameConfig := { s.consensus.frameConfig with fastLaneLengthSlots := fast } } } := by
  simp only [ConsensusSystem.setFastLaneLengthSlots, HashConsensus.setFastLaneLengthSlots,
    bind_eq_ok, pure_eq_ok, require_eq_ok] at h
  obtain ⟨c, ⟨_, _, _, _, _, _, hc⟩, rfl⟩ := h
  split at hc
  · next heq =>
    obtain rfl := pure_eq_ok.mp hc
    rw [heq]
  · simp only [toUint64, bind_eq_ok, pure_eq_ok, require_eq_ok] at hc
    obtain ⟨_, ⟨_, _, rfl⟩, rfl⟩ := hc
    rfl

theorem updateInitialEpoch_ok_cases {initialEpoch : Nat}
    (h : s.updateInitialEpoch env initialEpoch = .ok s') :
    epochAt s.consensus.chain env.timestamp < s.consensus.frameConfig.initialEpoch ∧
    s' = { s with
      consensus := { s.consensus with
        frameConfig := { s.consensus.frameConfig with initialEpoch := initialEpoch } } } ∧
    ∃ frame, s'.consensus.getInitialFrame = .ok frame ∧ s.lastProcessingRefSlot ≤ frame.refSlot := by
  simp only [updateInitialEpoch, bind_eq_ok, pure_eq_ok, require_eq_ok,
    computeEpochAtTimestamp_eq_ok] at h
  obtain ⟨_, _, _, ⟨_, rfl⟩, _, hyet, c, hc, frame, hframe, _, hle, rfl⟩ := h
  obtain rfl := setFrameConfigInternal_ok_cases hc
  exact ⟨hyet, rfl, frame, hframe, hle⟩

theorem setReportProcessor_ok_cases {newProcessor : Address}
    (h : s.setReportProcessor env newProcessor = .ok s') :
    ∃ frame, s.consensus.getCurrentFrame env = .ok frame ∧
      ((s.lastProcessingRefSlot < frame.refSlot ∧
          (s.processors newProcessor).lastProcessingRefSlot < frame.refSlot ∧
          s.consensus.reportingState.lastConsensusRefSlot = frame.refSlot ∧ ∃ p,
          s' = ({ s with consensus := { s.consensus with reportProcessor := newProcessor } } :
            ConsensusSystem).submitted frame (s.consensus.reportVariants
              s.consensus.reportingState.lastConsensusVariantIndex).hash p ∧
          p.lastProcessingRefSlot = (s.processors newProcessor).lastProcessingRefSlot) ∨
        s' = { s with consensus := { s.consensus with reportProcessor := newProcessor } }) := by
  simp only [setReportProcessor, bind_eq_ok, require_eq_ok] at h
  obtain ⟨_, _, _, _, _, _, frame, hframe, h⟩ := h
  refine ⟨frame, hframe, ?_⟩
  split at h
  · next hall =>
    obtain ⟨deadline, p, hp, rfl⟩ := submitReportForProcessing_ok_cases h
    obtain ⟨-, -, -, rfl⟩ := BaseOracle.submitConsensusReport_ok_cases hp
    exact .inl ⟨hall.1, hall.2.1, hall.2.2, _, rfl, rfl⟩
  · exact .inr (pure_eq_ok.mp h).symm

end ConsensusSystem

end Catalist
