import Catalist.Lib.Outcome
import Catalist.Oracle.Agreement

/-!
# Calls of the report processor

While the consensus contract handles a call it submits a report to its processor, or discards one.
The two contracts guard these calls with different state. Here the guards of the processor are shown
to hold whenever the consensus contract calls it: the processor never makes a call revert.

The times of the blocks are starts of slots; otherwise the deadline of the last slot of a frame,
which is its start, could be over within that slot.
-/

namespace Catalist

open Solidity HashConsensus Transition

/-- The errors that only a report processor raises. -/
def OracleError.ofProcessor : OracleError → Bool
  | .senderIsNotTheConsensusContract => true
  | .refSlotMustBeGreaterThanProcessingOne _ _ => true
  | .refSlotCannotDecrease _ _ => true
  | .processingDeadlineMissed _ => true
  | .refSlotAlreadyProcessing => true
  | .hashCannotBeZero => true
  | .valueDoesNotFitIn64Bits => true
  | _ => false

/-- A revert that does not come from the report processor. -/
def OwnRevert : Revert OracleError → Prop
  | .panic _ => True
  | .error e => e.ofProcessor = false

theorem ownRevert_panic (p : Panic) : OwnRevert (.panic p) := trivial

theorem not_ownRevert {e : OracleError} (h : e.ofProcessor = true) : ¬ OwnRevert (.error e) := by
  intro hown
  rw [OwnRevert, h] at hown
  cases hown

theorem ensures_guard {c : Prop} [Decidable c] {e : OracleError} (h : e.ofProcessor = false) :
    Ensures OwnRevert (require c e) fun _ => True :=
  (ensures_require (show OwnRevert (.error e) from h)).mono fun _ _ => trivial

namespace HashConsensus

/-- The time is the start of a slot. -/
def AtSlotStart (chain : ChainConfig) (timestamp : Nat) : Prop :=
  timestamp = chain.genesisTime + slotAt chain timestamp * chain.secondsPerSlot

/-- The deadline of the current frame fits 64 bits as a time. -/
def TimesFit (c : HashConsensus) (timestamp : Nat) : Prop :=
  c.frameConfig.initialEpoch ≤ epochAt c.chain timestamp →
    c.chain.genesisTime + deadlineSlotAt c.chain c.frameConfig timestamp * c.chain.secondsPerSlot
      < 2 ^ 64

instance (chain : ChainConfig) (timestamp : Nat) : Decidable (AtSlotStart chain timestamp) :=
  inferInstanceAs (Decidable (_ = _))

instance (c : HashConsensus) (timestamp : Nat) : Decidable (c.TimesFit timestamp) :=
  inferInstanceAs (Decidable (_ → _))

variable {c : HashConsensus} {env : Env} {frame : ConsensusFrame}

theorem deadlineSlot_eq (hfit : c.SlotsFit env.timestamp) (h : c.getCurrentFrame env = .ok frame) :
    frame.reportProcessingDeadlineSlot = deadlineSlotAt c.chain c.frameConfig env.timestamp := by
  obtain ⟨harrived, -, -, -, hdeadline⟩ := getFrameAtTimestamp_ok_cases h
  rw [hdeadline, Nat.mod_eq_of_lt (hfit harrived)]

/-- At the start of a slot, the deadline of the current frame is not over. -/
theorem timestamp_le_deadline {deadline : Nat} (hfit : c.SlotsFit env.timestamp)
    (htimes : c.TimesFit env.timestamp) (hstart : AtSlotStart c.chain env.timestamp)
    (h : c.getCurrentFrame env = .ok frame)
    (hdeadline : computeTimestampAtSlot c.chain frame.reportProcessingDeadlineSlot = .ok deadline) :
    env.timestamp ≤ deadline ∧ deadline < 2 ^ 64 := by
  obtain ⟨harrived, -, -, hslot⟩ := getCurrentFrame_ok_cases hfit h
  simp only [computeTimestampAtSlot, bind_eq_ok, checkedMul_eq_ok, checkedAdd_eq_ok] at hdeadline
  obtain ⟨_, ⟨-, rfl⟩, -, rfl⟩ := hdeadline
  constructor
  · have hmul := Nat.mul_le_mul_right c.chain.secondsPerSlot hslot
    rw [hstart]
    omega
  · rw [deadlineSlot_eq hfit h]
    exact htimes harrived

/-! ## Reverts of the consensus contract itself -/

theorem ensures_computeSlotAtTimestamp (chain : ChainConfig) (timestamp : Nat) :
    Ensures OwnRevert (computeSlotAtTimestamp chain timestamp) fun _ => True :=
  (ensures_sub ownRevert_panic).bind fun _ _ => ensures_div ownRevert_panic

theorem ensures_computeEpochAtTimestamp (chain : ChainConfig) (timestamp : Nat) :
    Ensures OwnRevert (computeEpochAtTimestamp chain timestamp) fun _ => True :=
  (ensures_computeSlotAtTimestamp chain timestamp).bind fun _ _ => ensures_div ownRevert_panic

theorem ensures_computeTimestampAtSlot (chain : ChainConfig) (slot : Nat) :
    Ensures OwnRevert (computeTimestampAtSlot chain slot) fun _ => True :=
  (ensures_mul ownRevert_panic).bind fun _ _ => ensures_add ownRevert_panic

theorem ensures_getFrameAtIndex (chain : ChainConfig) (index : Nat) (config : FrameConfig) :
    Ensures OwnRevert (getFrameAtIndex chain index config) fun _ => True := by
  refine Ensures.bind ((ensures_mul ownRevert_panic).bind fun _ _ => ensures_add ownRevert_panic)
    fun _ _ => ?_
  refine (ensures_mul ownRevert_panic).bind fun _ _ => ?_
  refine (ensures_mul ownRevert_panic).bind fun _ _ => ?_
  refine (ensures_add ownRevert_panic).bind fun _ _ => ?_
  refine (ensures_sub ownRevert_panic).bind fun _ _ => ?_
  refine (ensures_sub ownRevert_panic).bind fun _ _ => ?_
  exact (ensures_sub ownRevert_panic).bind fun _ _ => ensures_pure trivial

theorem ensures_getCurrentFrame (c : HashConsensus) (env : Env) :
    Ensures OwnRevert (c.getCurrentFrame env) fun _ => True := by
  have hindex : Ensures OwnRevert (computeFrameIndex c.chain env.timestamp c.frameConfig)
      fun _ => True := by
    refine (ensures_computeEpochAtTimestamp _ _).bind fun _ _ => ?_
    exact (ensures_guard rfl).bind fun _ _ => ensures_div ownRevert_panic
  exact hindex.bind fun _ _ => ensures_getFrameAtIndex _ _ _

theorem ensures_getMemberIndex (c : HashConsensus) (addr : Address) :
    Ensures OwnRevert (c.getMemberIndex addr) fun _ => True :=
  (ensures_guard rfl).bind fun _ _ => ensures_pure trivial

theorem ensures_isFastLaneMember (c : HashConsensus) (index frameIndex : Nat) :
    Ensures OwnRevert (c.isFastLaneMember index frameIndex) fun _ => True := by
  have hsubset : Ensures OwnRevert (c.getFastLaneSubset frameIndex c.memberStates.length)
      fun _ => True := by
    unfold getFastLaneSubset
    split
    · exact ensures_pure trivial
    · refine (ensures_mod ownRevert_panic).bind fun _ _ => ?_
      exact (ensures_add ownRevert_panic).bind fun _ _ => ensures_pure trivial
  refine hsubset.bind fun ⟨flLeft, flPastRight⟩ _ => ?_
  show Ensures OwnRevert (if flPastRight = 0 then _ else _) _
  split
  · exact ensures_pure trivial
  · refine (ensures_add ownRevert_panic).bind fun _ _ => ?_
    refine (ensures_sub ownRevert_panic).bind fun _ _ => ?_
    refine (ensures_mod ownRevert_panic).bind fun _ _ => ?_
    refine (ensures_sub ownRevert_panic).bind fun _ _ => ?_
    exact (ensures_mod ownRevert_panic).bind fun _ _ => ensures_pure trivial

theorem ensures_requireFastLane (c : HashConsensus) (currentSlot memberIndex : Nat)
    (frame : ConsensusFrame) :
    Ensures OwnRevert (c.requireFastLane currentSlot memberIndex frame) fun _ => True := by
  refine (ensures_add ownRevert_panic).bind fun _ _ => ?_
  split
  · exact (ensures_isFastLaneMember _ _ _).bind fun _ _ => ensures_guard rfl
  · exact ensures_pure trivial

theorem ensures_findVariant (c : HashConsensus) (report : Hash) (n i : Nat) :
    Ensures OwnRevert (c.findVariant report n i) fun _ => True := by
  fun_induction c.findVariant report n i with
  | case1 i hlt hne ih => exact (ensures_add ownRevert_panic).bind fun _ _ => ih
  | case2 i hlt heq => exact ensures_pure trivial
  | case3 i hge => exact ensures_pure trivial

theorem ensures_withdrawReport (c : HashConsensus) (m : MemberState) (slot n v : Nat) :
    Ensures OwnRevert (c.withdrawReport m slot n v) fun _ => True := by
  unfold withdrawReport
  split
  · refine (ensures_assert ownRevert_panic).bind fun _ _ => ?_
    refine (ensures_guard rfl).bind fun _ _ => ?_
    refine (ensures_sub ownRevert_panic).bind fun _ _ => ?_
    exact (ensures_sub ownRevert_panic).bind fun _ _ => ensures_pure trivial
  · exact ensures_pure trivial

theorem ensures_countReport (c : HashConsensus) (report : Hash) (n v : Nat) :
    Ensures OwnRevert (c.countReport report n v) fun _ => True := by
  unfold countReport
  split
  · exact (ensures_add ownRevert_panic).bind fun _ _ => ensures_pure trivial
  · exact (ensures_add ownRevert_panic).bind fun _ _ => ensures_pure trivial

theorem ensures_moveLastMember (c : HashConsensus) (index newTotalMembers : Nat) :
    Ensures OwnRevert (c.moveLastMember index newTotalMembers) fun _ => True := by
  unfold moveLastMember
  split
  · refine (ensures_getIndex ownRevert_panic).bind fun _ _ => ?_
    refine (ensures_setIndex ownRevert_panic).bind fun _ _ => ?_
    refine (ensures_getIndex ownRevert_panic).bind fun _ _ => ?_
    exact (ensures_setIndex ownRevert_panic).bind fun _ _ => ensures_pure trivial
  · exact ensures_pure trivial

end HashConsensus

/-! ## Reverts of the processor -/

namespace BaseOracle

variable {p : BaseOracle} {env : Env} {refSlot deadline : Nat} {hash : Hash}

/-- The processor reverts with its own errors only. -/
theorem submitConsensusReport_eq_error {r : Revert OracleError}
    (h : p.submitConsensusReport env hash refSlot deadline = .error r) : ¬ OwnRevert r := by
  have hcast : ∀ n, Ensures (fun r => ¬ OwnRevert r) (toUint64 n) fun _ => True := fun n =>
    (ensures_require (not_ownRevert rfl)).bind fun _ _ => ensures_pure trivial
  have hensures : Ensures (fun r => ¬ OwnRevert r)
      (p.submitConsensusReport env hash refSlot deadline) fun _ => True := by
    refine (ensures_require (not_ownRevert rfl)).bind fun _ _ => ?_
    refine (ensures_require (not_ownRevert rfl)).bind fun _ _ => ?_
    refine (ensures_require (not_ownRevert rfl)).bind fun _ _ => ?_
    refine (ensures_require (not_ownRevert rfl)).bind fun _ _ => ?_
    refine (ensures_require (not_ownRevert rfl)).bind fun _ _ => ?_
    refine (hcast refSlot).bind fun _ _ => ?_
    exact (hcast deadline).bind fun _ _ => ensures_pure trivial
  exact hensures.of_error h

theorem discardConsensusReport_eq_error {r : Revert OracleError}
    (h : p.discardConsensusReport env refSlot = .error r) : ¬ OwnRevert r := by
  have hensures : Ensures (fun r => ¬ OwnRevert r)
      (p.discardConsensusReport env refSlot) fun _ => True := by
    refine (ensures_require (not_ownRevert rfl)).bind fun _ _ => ?_
    show Ensures _ (if refSlot < p.consensusReport.refSlot then _ else _) _
    split
    · exact ensures_error (not_ownRevert rfl)
    · split
      · exact ensures_pure trivial
      · exact (ensures_require (not_ownRevert rfl)).bind fun _ _ => ensures_pure trivial
  exact hensures.of_error h

theorem exists_submitConsensusReport (env : Env) (hsender : env.sender = p.consensusContract)
    (hle : p.consensusReport.refSlot ≤ refSlot) (hlt : p.lastProcessingRefSlot < refSlot)
    (htime : env.timestamp ≤ deadline) (hhash : hash ≠ ZERO_HASH) (hslot : refSlot < 2 ^ 64)
    (hdeadline : deadline < 2 ^ 64) :
    ∃ p', p.submitConsensusReport env hash refSlot deadline = .ok p' := by
  simp only [submitConsensusReport, toUint64, require_of hsender, require_of hle, require_of hlt,
    require_of htime, require_of hhash, require_of hslot, require_of hdeadline, ok_bind]
  exact ⟨_, rfl⟩

theorem exists_discardConsensusReport (env : Env) (hsender : env.sender = p.consensusContract)
    (hle : p.consensusReport.refSlot ≤ refSlot) (hlt : p.lastProcessingRefSlot < refSlot) :
    ∃ p', p.discardConsensusReport env refSlot = .ok p' := by
  simp only [discardConsensusReport, require_of hsender, ok_bind, if_neg (Nat.not_lt.mpr hle),
    require_of hlt]
  split
  · exact ⟨_, rfl⟩
  · exact ⟨_, rfl⟩

end BaseOracle

/-! ## Calls of the consensus contract -/

/-- The calls that concern members, quorum or reports. -/
inductive ConsensusCall where
  | addMember (addr : Address) (quorum : Nat)
  | removeMember (addr : Address) (quorum : Nat)
  | setQuorum (quorum : Nat)
  | disableConsensus
  | submitReport (slot : Nat) (report : Hash) (consensusVersion : Nat)
deriving DecidableEq, Repr

def ConsensusCall.run (s : ConsensusSystem) (env : Env) :
    ConsensusCall → Call OracleError ConsensusSystem
  | .addMember addr quorum => s.addMember env addr quorum
  | .removeMember addr quorum => s.removeMember env addr quorum
  | .setQuorum quorum => s.setQuorum env quorum
  | .disableConsensus => s.disableConsensus env
  | .submitReport slot report consensusVersion => s.submitReport env slot report consensusVersion

namespace ConsensusSystem

variable {s s' : ConsensusSystem} {env : Env} {frame : ConsensusFrame} {report : Hash}

/-- The processor takes reports for the current slot, unless it is processing that slot. -/
structure Receptive (s : ConsensusSystem) (env : Env) : Prop where
  contract : s.processor.consensusContract = s.self
  report_le : s.processor.consensusReport.refSlot ≤ s.consensus.currentRefSlot env.timestamp
  fits : s.consensus.SlotsFit env.timestamp
  times : s.consensus.TimesFit env.timestamp
  start : AtSlotStart s.consensus.chain env.timestamp

theorem Receptive.submitReportForProcessing (h : Receptive s env)
    (hframe : s.consensus.getCurrentFrame env = .ok frame)
    (hlt : s.lastProcessingRefSlot < frame.refSlot) (hreport : report ≠ ZERO_HASH) :
    Ensures OwnRevert (s.submitReportForProcessing env frame report) fun _ => True := by
  obtain ⟨-, hrefSlot, hslot, -⟩ := getCurrentFrame_ok_cases h.fits hframe
  refine (ensures_computeTimestampAtSlot _ _).bind_ok fun deadline hdeadline => ?_
  obtain ⟨htime, hbound⟩ := timestamp_le_deadline h.fits h.times h.start hframe hdeadline
  obtain ⟨p, hp⟩ := BaseOracle.exists_submitConsensusReport (s.nested env) h.contract.symm
    (hrefSlot ▸ h.report_le) hlt htime hreport hslot hbound
  rw [hp]
  exact ensures_ok trivial

theorem Receptive.cancelReportProcessing (h : Receptive s env)
    (hframe : s.consensus.getCurrentFrame env = .ok frame)
    (hlt : s.lastProcessingRefSlot < frame.refSlot) :
    Ensures OwnRevert (s.cancelReportProcessing env frame) fun _ => True := by
  obtain ⟨-, hrefSlot, -⟩ := getCurrentFrame_ok_cases h.fits hframe
  obtain ⟨p, hp⟩ := BaseOracle.exists_discardConsensusReport (s.nested env) h.contract.symm
    (hrefSlot ▸ h.report_le) hlt
  unfold ConsensusSystem.cancelReportProcessing
  rw [hp]
  exact ensures_ok trivial

theorem Receptive.consensusReached {i : Nat} (h : Receptive s env)
    (hframe : s.consensus.getCurrentFrame env = .ok frame)
    (hlt : s.lastProcessingRefSlot < frame.refSlot) (hreport : report ≠ ZERO_HASH) :
    Ensures OwnRevert (s.consensusReached env frame report i) fun _ => True := by
  unfold ConsensusSystem.consensusReached
  split
  · refine Receptive.submitReportForProcessing ?_ hframe hlt hreport
    exact { h with }
  · exact ensures_pure trivial

theorem Receptive.consensusNotReached (h : Receptive s env)
    (hframe : s.consensus.getCurrentFrame env = .ok frame)
    (hlt : s.lastProcessingRefSlot < frame.refSlot) :
    Ensures OwnRevert (s.consensusNotReached env frame) fun _ => True := by
  unfold ConsensusSystem.consensusNotReached
  split
  · refine Receptive.cancelReportProcessing ?_ hframe hlt
    exact { h with }
  · exact ensures_pure trivial

/-- The hashes of the variants for the current slot are not zero. -/
def HashesKept (s : ConsensusSystem) (now : Nat) : Prop :=
  ∀ i < s.consensus.variantsLengthFor (s.consensus.currentRefSlot now),
    (s.consensus.reportVariants i).hash ≠ ZERO_HASH

theorem Receptive.checkConsensus (h : Receptive s env) (hhash : HashesKept s env.timestamp)
    (quorum : Nat) : Ensures OwnRevert (s.checkConsensus env quorum) fun _ => True := by
  refine (ensures_getCurrentFrame _ _).bind_ok fun frame hframe => ?_
  refine (ensures_computeSlotAtTimestamp _ _).bind fun slot _ => ?_
  obtain ⟨-, hrefSlot, -⟩ := getCurrentFrame_ok_cases h.fits hframe
  split
  · exact ensures_pure trivial
  · split
    · exact ensures_pure trivial
    · next hlt =>
      have hlt := Nat.not_le.mp hlt
      split
      · next consensusReport i support hreport =>
        refine h.consensusReached hframe hlt ?_
        unfold getConsensusReport at hreport
        split at hreport
        · cases hreport
        · next hsame =>
          split at hreport
          · next j hfind =>
            cases hreport
            have hlength := lt_variantsLengthFor.mpr
              ⟨Classical.not_not.mp hsame, (findSupported_eq_some hfind).1⟩
            rw [hrefSlot] at hlength
            exact hhash i hlength
          · cases hreport
      · exact h.consensusNotReached hframe hlt

theorem Receptive.setQuorumAndCheckConsensus (h : Receptive s env)
    (hhash : HashesKept s env.timestamp) (quorum totalMembers : Nat) :
    Ensures OwnRevert (s.setQuorumAndCheckConsensus env quorum totalMembers) fun _ => True := by
  refine (ensures_guard rfl).bind fun _ _ => ?_
  refine (ensures_guard rfl).bind fun _ _ => ?_
  refine (ensures_computeEpochAtTimestamp _ _).bind fun _ _ => ?_
  have hquorum : Receptive (s.withQuorum quorum) env := { h with }
  split
  · exact hquorum.checkConsensus hhash quorum
  · exact ensures_pure trivial

theorem Receptive.addMember (h : Receptive s env) (hhash : HashesKept s env.timestamp)
    (addr : Address) (quorum : Nat) :
    Ensures OwnRevert (s.addMember env addr quorum) fun _ => True := by
  refine (ensures_guard rfl).bind fun _ _ => ?_
  refine (ensures_guard rfl).bind fun _ _ => ?_
  refine (ensures_guard rfl).bind fun _ _ => ?_
  refine Receptive.setQuorumAndCheckConsensus ?_ ?_ _ _
  · exact { h with }
  · exact hhash

theorem moveLastMember_tables {c c' : HashConsensus} {index newTotalMembers : Nat}
    (h : c.moveLastMember index newTotalMembers = .ok c') :
    ∃ memberStates memberAddresses memberIndices1b, c' = { c with
      memberStates := memberStates
      memberAddresses := memberAddresses
      memberIndices1b := memberIndices1b } := by
  unfold moveLastMember at h
  split at h
  · simp only [bind_eq_ok, pure_eq_ok] at h
    obtain ⟨_, _, _, _, _, _, _, _, rfl⟩ := h
    exact ⟨_, _, _, rfl⟩
  · cases h
    exact ⟨_, _, _, rfl⟩

theorem ensures_cancelMemberReport (s : ConsensusSystem) (env : Env) (m : MemberState) :
    Ensures OwnRevert (s.cancelMemberReport env m) fun _ => True := by
  unfold cancelMemberReport
  split
  · refine (ensures_getCurrentFrame _ _).bind fun frame _ => ?_
    split
    · exact (ensures_sub ownRevert_panic).bind fun _ _ => ensures_pure trivial
    · exact ensures_pure trivial
  · exact ensures_pure trivial

/-- Taking back the report of a removed member changes a counter only. -/
theorem Receptive.of_cancelMemberReport {m : MemberState} (h : Receptive s env)
    (hhash : HashesKept s env.timestamp) (hcancel : s.cancelMemberReport env m = .ok s') :
    Receptive s' env ∧ HashesKept s' env.timestamp := by
  rcases cancelMemberReport_ok_cases hcancel with
    ⟨-, rfl⟩ | ⟨frame, -, ⟨-, -, -, rfl⟩ | ⟨-, rfl⟩⟩
  · exact ⟨h, hhash⟩
  · refine ⟨{ h with }, fun i hi => ?_⟩
    rw [hash_withoutSupport]
    exact hhash i hi
  · exact ⟨h, hhash⟩

theorem Receptive.removeMember (h : Receptive s env) (hhash : HashesKept s env.timestamp)
    (addr : Address) (quorum : Nat) :
    Ensures OwnRevert (s.removeMember env addr quorum) fun _ => True := by
  refine (ensures_guard rfl).bind fun _ _ => ?_
  refine (ensures_getMemberIndex _ _).bind fun index _ => ?_
  refine (ensures_sub ownRevert_panic).bind fun newTotalMembers _ => ?_
  refine (ensures_assert ownRevert_panic).bind fun _ _ => ?_
  refine (ensures_getIndex ownRevert_panic).bind fun memberState _ => ?_
  refine (ensures_moveLastMember _ _ _).bind_ok fun c hmove => ?_
  refine (ensures_cancelMemberReport _ _ _).bind_ok fun s₁ hcancel => ?_
  obtain ⟨memberStates, memberAddresses, memberIndices1b, rfl⟩ := moveLastMember_tables hmove
  have h₁ : Receptive s₁ env ∧ HashesKept s₁ env.timestamp := by
    refine Receptive.of_cancelMemberReport ?_ ?_ hcancel
    · exact { h with }
    · exact hhash
  exact h₁.1.setQuorumAndCheckConsensus h₁.2 _ _

/-- Counting a report changes the variants only. -/
theorem countedReport_tables {c c₁ c₂ : HashConsensus} {m : MemberState} {slot n v support : Nat}
    {lost : Bool} (hwithdraw : c.withdrawReport m slot n v = .ok (c₁, lost))
    (hcount : c₁.countReport report n v = .ok (c₂, support)) :
    ∃ variants length, c₂ = { c with
      reportVariants := variants
      reportVariantsLength := length } := by
  rcases withdrawReport_ok_cases hwithdraw with ⟨-, rfl, -⟩ | ⟨-, -, -, -, -, rfl⟩
  · rcases countReport_ok_cases hcount with ⟨-, -, rfl⟩ | ⟨-, -, rfl⟩
    · exact ⟨_, _, rfl⟩
    · exact ⟨_, _, rfl⟩
  · rcases countReport_ok_cases hcount with ⟨-, -, rfl⟩ | ⟨-, -, rfl⟩
    · exact ⟨_, _, rfl⟩
    · exact ⟨_, _, rfl⟩

theorem Receptive.submitReport {slot version : Nat} (h : Receptive s env) :
    Ensures OwnRevert (s.submitReport env slot report version) fun _ => True := by
  refine (ensures_guard rfl).bind fun _ _ => ?_
  refine (ensures_guard rfl).bind fun _ _ => ?_
  refine (ensures_require (show OwnRevert (.error .emptyReport) from rfl)).bind fun _ hreport => ?_
  refine (ensures_getMemberIndex _ _).bind fun memberIndex _ => ?_
  refine (ensures_getIndex ownRevert_panic).bind fun memberState _ => ?_
  refine (ensures_guard rfl).bind fun _ _ => ?_
  refine (ensures_computeSlotAtTimestamp _ _).bind fun currentSlot _ => ?_
  refine (ensures_getCurrentFrame _ _).bind_ok fun frame hframe => ?_
  refine (ensures_require (show OwnRevert (.error .invalidSlot) from rfl)).bind fun _ hslot => ?_
  refine (ensures_guard rfl).bind fun _ _ => ?_
  refine (ensures_requireFastLane _ _ _ _).bind fun _ _ => ?_
  split
  · exact (ensures_guard rfl).bind fun _ _ => ensures_pure trivial
  · next hlt =>
    rw [hslot] at hlt
    have hlt := Nat.not_le.mp hlt
    refine (ensures_findVariant _ _ _ _).bind fun varIndex _ => ?_
    refine (ensures_withdrawReport _ _ _ _ _).bind_ok fun withdrawn hwithdraw => ?_
    obtain ⟨c₁, lost⟩ := withdrawn
    refine (ensures_countReport _ _ _ _).bind_ok fun counted hcount => ?_
    obtain ⟨c₂, support⟩ := counted
    refine (ensures_setIndex ownRevert_panic).bind fun memberStates _ => ?_
    obtain ⟨variants, length, rfl⟩ := countedReport_tables hwithdraw hcount
    simp only
    split
    · refine Receptive.consensusReached ?_ hframe hlt hreport
      exact { h with }
    · split
      · refine Receptive.consensusNotReached ?_ hframe hlt
        exact { h with }
      · exact ensures_pure trivial

/-- While the processor is receptive, it makes no call revert. -/
theorem Receptive.run (h : Receptive s env) (hhash : HashesKept s env.timestamp)
    (call : ConsensusCall) : Ensures OwnRevert (call.run s env) fun _ => True := by
  cases call with
  | addMember addr quorum => exact h.addMember hhash addr quorum
  | removeMember addr quorum => exact h.removeMember hhash addr quorum
  | setQuorum quorum => exact h.setQuorumAndCheckConsensus hhash _ _
  | disableConsensus => exact h.setQuorumAndCheckConsensus hhash _ _
  | submitReport slot report consensusVersion => exact h.submitReport

end ConsensusSystem

end Catalist
