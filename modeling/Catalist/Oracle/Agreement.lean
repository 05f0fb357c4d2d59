import Catalist.Oracle.Steps
import Catalist.Lib.Transition

/-!
# Agreement of the consensus and its processor

`HashConsensus` with one processor that stays attached. The processor learns of the consensus
through submissions and discards only, and each function of the contract decides for itself
whether to make one. Nevertheless the processor's stored report for the current slot is exactly
the hash that a quorum of the current members reports, as long as its processing has not started.

The invariant adds to `Inv` that every variant with a quorum is recorded (`reached`), that the
processor's report is the recorded one (`agrees`), and how the slots of the processor compare to
the current one. While no quorum was ever set, there is nothing to agree on.
-/

namespace Catalist

open Solidity HashConsensus Transition

namespace ConsensusSystem

variable {s s' : ConsensusSystem} {now now' : Nat} {env : Env}

/-- The system with another state of the attached processor. -/
def withProcessor (s : ConsensusSystem) (p : BaseOracle) : ConsensusSystem :=
  { s with processors := Function.update s.processors s.consensus.reportProcessor p }

@[simp] theorem processor_withProcessor (s : ConsensusSystem) (p : BaseOracle) :
    (s.withProcessor p).processor = p := by
  simp [withProcessor, processor]

/-- The contract after its constructor, and a processor before its initialization. -/
def Deployed (x : ConsensusSystem × Nat) : Prop :=
  ∃ chain epochsPerFrame fast admin reportProcessor c,
    HashConsensus.deploy chain epochsPerFrame fast admin reportProcessor = .ok c ∧
    x.1.consensus = c ∧ x.1.submissions = [] ∧ x.1.self ≠ 0 ∧
    x.1.processor = BaseOracle.blank chain.secondsPerSlot chain.genesisTime ∧
    x.1.consensus.SlotsFit x.2

/-- A call of the attached processor by its admin. -/
inductive SetupCall (s : ConsensusSystem) : BaseOracle → Prop where
  | initializeOracle {p : BaseOracle} {version lastProcessingRefSlot : Nat} :
      s.processor.initializeOracle s.consensus s.self version lastProcessingRefSlot = .ok p →
      SetupCall s p
  | setConsensusVersion {p : BaseOracle} {version : Nat} :
      s.processor.setConsensusVersion version = .ok p → SetupCall s p

/-- The steps of a system whose processor stays attached, with the time they happen at. -/
inductive AttachedStep : ConsensusSystem × Nat → ConsensusSystem × Nat → Prop where
  | call {s s' : ConsensusSystem} {env : Env} :
      ContractCall env s s' → AttachedStep (s, env.timestamp) (s', env.timestamp)
  | clock {x y : ConsensusSystem × Nat} : ClockStep SlotsFit x y → AttachedStep x y
  | setup {s : ConsensusSystem} {p : BaseOracle} {now : Nat} :
      SetupCall s p → AttachedStep (s, now) (s.withProcessor p, now)
  | startProcessing {s : ConsensusSystem} {p : BaseOracle} {env : Env} {prev : Nat} :
      s.processor.startProcessing env = .ok (p, prev) →
      AttachedStep (s, env.timestamp) (s.withProcessor p, env.timestamp)

/-- What holds of a system whose processor stays attached. -/
structure Agreement (s : ConsensusSystem) (now : Nat) : Prop where
  inv : Inv s now
  fits : s.consensus.SlotsFit now
  reached : s.lastProcessingRefSlot < s.consensus.currentRefSlot now →
    Reached s.consensus (s.consensus.currentRefSlot now)
  agrees : s.lastProcessingRefSlot < s.consensus.currentRefSlot now →
    Agrees s.consensus s.processor (s.consensus.currentRefSlot now)
  processing_le : s.lastProcessingRefSlot ≤ s.processor.consensusReport.refSlot
  report_le : s.processor.consensusReport.refSlot ≤ s.consensus.currentRefSlot now
  early : epochAt s.consensus.chain now < s.consensus.frameConfig.initialEpoch →
    s.processor.consensusReport.hash = ZERO_HASH ∧
    s.processor.consensusReport.refSlot = s.lastProcessingRefSlot
  /-- A processor before its initialization. -/
  blank : s.processor.contractVersion = 0 →
    s.processor.consensusContract = 0 ∧ s.processor.consensusReport.hash = ZERO_HASH ∧
    s.lastProcessingRefSlot = 0
  self_ne : s.self ≠ 0

theorem agreement_of_deployed {x : ConsensusSystem × Nat} (h : Deployed x) : Agreement x.1 x.2 := by
  obtain ⟨chain, epochsPerFrame, fast, admin, reportProcessor, c, hdeploy, rfl, hsub, hself, hblank,
    hfit⟩ := h
  obtain ⟨⟨self, consensus, processors, submissions⟩, now⟩ := x
  simp only at hsub hself hfit hdeploy
  subst hsub
  obtain ⟨hinv, hearly, -⟩ := inv_of_deploy self processors now hdeploy
  refine ⟨hinv, hfit, fun hlt => hearly.reached (by omega), fun hlt => ?_, ?_, ?_, ?_, ?_, hself⟩
  · have hconsensus := hearly.consensus
    refine ⟨⟨fun hsub => ?_, fun heq => ?_⟩, fun heq => ?_⟩
    · simp [hblank, BaseOracle.blank] at hsub
    · simp only at heq hlt
      omega
    · simp only at heq hlt
      omega
  · simp [lastProcessingRefSlot, hblank, BaseOracle.blank]
  · simp [hblank, BaseOracle.blank]
  · intro _
    simp [lastProcessingRefSlot, hblank, BaseOracle.blank]
  · intro _
    simp [lastProcessingRefSlot, hblank, BaseOracle.blank]

/-- A call of the contract keeps the agreement. -/
theorem Agreement.of_advances (h : Agreement s now) (ha : Advances s s' now) : Agreement s' now := by
  have hprocessing : s'.lastProcessingRefSlot = s.lastProcessingRefSlot :=
    ha.processor.lastProcessingRefSlot
  have hle : s.lastProcessingRefSlot ≤ s.consensus.currentRefSlot now :=
    h.processing_le.trans h.report_le
  refine ⟨ha.inv, ?_, ?_, ?_, ?_, ?_, ?_, ?_, ?_⟩
  · simpa only [SlotsFit, ha.config.1, ha.config.2] using h.fits
  · intro hlt
    rw [hprocessing, ha.refSlot] at hlt
    rw [ha.refSlot]
    exact (ha.agrees hlt (h.reached hlt) (h.agrees hlt)).1
  · intro hlt
    rw [hprocessing, ha.refSlot] at hlt
    rw [ha.refSlot]
    exact (ha.agrees hlt (h.reached hlt) (h.agrees hlt)).2
  · rw [hprocessing]
    rcases ha.processor.refSlot with heq | heq
    · rw [heq]
      exact h.processing_le
    · rw [heq]
      exact hle
  · rw [ha.refSlot]
    rcases ha.processor.refSlot with heq | heq
    · rw [heq]
      exact h.report_le
    · exact heq.le
  · intro hyet
    rw [ha.config.1, ha.config.2] at hyet
    rw [hprocessing, ha.early hyet]
    exact h.early hyet
  · intro hversion
    rw [ha.processor.contractVersion] at hversion
    have hblank := h.blank hversion
    -- an uninitialized processor accepts no report: the caller would have to be the zero address
    rcases ha.accepted with heq | hself
    · rw [hprocessing, heq]
      exact hblank
    · exact absurd (hself.trans hblank.1) h.self_ne
  · rw [ha.self]
    exact h.self_ne

/-- A new frame keeps the agreement: there is nothing to agree on before the first report. -/
theorem Agreement.of_reframed (h : Agreement s now) (hf : Reframed s s' now now')
    (hfit : s'.consensus.SlotsFit now') : Agreement s' now' := by
  have hprocessor := hf.processor
  have hprocessing : s'.lastProcessingRefSlot = s.lastProcessingRefSlot := by
    simp only [lastProcessingRefSlot, hprocessor]
  -- the slot is the old one, or it is new and has no report yet, or it has not arrived
  have hcases := hf.cases
  obtain ⟨config, hasRole, hconsensus⟩ := hf.consensus
  have hle := hf.processing_le (h.processing_le.trans h.report_le)
  refine ⟨hf.inv h.inv, hfit, ?_, ?_, ?_, ?_, ?_, ?_, ?_⟩
  · intro hlt
    rw [hprocessing] at hlt
    have hreached : Reached s.consensus (s'.consensus.currentRefSlot now') := by
      rcases hcases with heq | hnew | hyet
      · rw [heq] at hlt ⊢
        exact h.reached hlt
      · exact reached_of_lt (Nat.lt_of_le_of_lt h.inv.kept.report_le hnew)
      · exact (h.inv.early hyet).reached (by omega)
    rw [hconsensus] at hreached ⊢
    exact hreached
  · intro hlt
    rw [hprocessing] at hlt
    have hagrees : Agrees s.consensus s.processor (s'.consensus.currentRefSlot now') := by
      rcases hcases with heq | hnew | hyet
      · rw [heq] at hlt ⊢
        exact h.agrees hlt
      · have hreport := h.report_le
        have hrecord := h.inv.kept.consensus_le
        exact ⟨⟨fun hsub => by omega, fun heq => by omega⟩, fun heq => by omega⟩
      · have hrecord := (h.inv.early hyet).consensus
        exact ⟨⟨fun hsub => absurd (h.early hyet).1 hsub.2, fun heq => by omega⟩,
          fun heq => by omega⟩
    rw [hprocessor]
    rw [hconsensus] at hagrees ⊢
    exact { hagrees with }
  · rw [hprocessing, hprocessor]
    exact h.processing_le
  · rw [hprocessor]
    rcases hcases with heq | hnew | hyet
    · rw [heq]
      exact h.report_le
    · exact h.report_le.trans hnew.le
    · rw [(h.early hyet).2]
      exact hle
  · intro hyet
    rw [hprocessing, hprocessor]
    exact h.early (hf.early hyet)
  · rw [hprocessing, hprocessor]
    exact h.blank
  · rw [hf.self]
    exact h.self_ne

/--
Another state of the processor keeps the agreement, if its last processed slot is not an earlier
one: the consensus does not change.
-/
theorem Agreement.withProcessor {p : BaseOracle} (h : Agreement s now)
    (hlast : s.lastProcessingRefSlot ≤ p.lastProcessingRefSlot)
    (hagrees : p.lastProcessingRefSlot < s.consensus.currentRefSlot now →
      Agrees s.consensus p (s.consensus.currentRefSlot now))
    (hprocessing : p.lastProcessingRefSlot ≤ p.consensusReport.refSlot)
    (hreport : p.consensusReport.refSlot ≤ s.consensus.currentRefSlot now)
    (hearly : epochAt s.consensus.chain now < s.consensus.frameConfig.initialEpoch →
      p.consensusReport.hash = ZERO_HASH ∧ p.consensusReport.refSlot = p.lastProcessingRefSlot)
    (hblank : p.contractVersion = 0 → p.consensusContract = 0 ∧
      p.consensusReport.hash = ZERO_HASH ∧ p.lastProcessingRefSlot = 0) :
    Agreement (s.withProcessor p) now := by
  have hprocessor : (s.withProcessor p).processor = p := processor_withProcessor s p
  have hlast' : (s.withProcessor p).lastProcessingRefSlot = p.lastProcessingRefSlot :=
    congrArg BaseOracle.lastProcessingRefSlot hprocessor
  have hlt_of : (s.withProcessor p).lastProcessingRefSlot < s.consensus.currentRefSlot now →
      s.lastProcessingRefSlot < s.consensus.currentRefSlot now := by
    rw [hlast']
    exact hlast.trans_lt
  refine ⟨{ h.inv with sync := fun hlt => h.inv.sync (hlt_of hlt) }, h.fits,
    fun hlt => h.reached (hlt_of hlt), ?_, ?_, ?_, ?_, ?_, h.self_ne⟩
  · rw [hlast', hprocessor]
    exact hagrees
  · rw [hlast', hprocessor]
    exact hprocessing
  · rw [hprocessor]
    exact hreport
  · rw [hlast', hprocessor]
    exact hearly
  · rw [hlast', hprocessor]
    exact hblank

/-- A processor that is initialized starts out with no report. -/
theorem Agreement.initializeOracle {p : BaseOracle} {version last : Nat} (h : Agreement s now)
    (hp : s.processor.initializeOracle s.consensus s.self version last = .ok p) :
    Agreement (s.withProcessor p) now := by
  obtain ⟨hversion, ⟨frame, hframe, hle⟩, rfl⟩ := BaseOracle.initializeOracle_ok_cases hp
  obtain ⟨-, hhash, hzero⟩ := h.blank hversion
  refine h.withProcessor (hzero.trans_le (Nat.zero_le _)) (fun hlt => ?_) (Nat.le_refl _)
    (hle.trans (getInitialFrame_ok_le hframe now)) (fun _ => ⟨hhash, rfl⟩)
    fun hnew => absurd hnew Nat.one_ne_zero
  have hlt : s.lastProcessingRefSlot < s.consensus.currentRefSlot now :=
    hzero.trans_lt (Nat.lt_of_le_of_lt (Nat.zero_le last) hlt)
  have hnot : s.consensus.reportingState.lastConsensusRefSlot
      ≠ s.consensus.currentRefSlot now := fun heq =>
    ((h.agrees hlt).submitted.mpr heq).2 hhash
  exact ⟨⟨fun hsub => absurd hhash hsub.2, fun heq => absurd heq hnot⟩, fun heq => absurd heq hnot⟩

theorem Agreement.setConsensusVersion {p : BaseOracle} {version : Nat} (h : Agreement s now)
    (hp : s.processor.setConsensusVersion version = .ok p) : Agreement (s.withProcessor p) now := by
  obtain rfl := BaseOracle.setConsensusVersion_ok_cases hp
  exact h.withProcessor (Nat.le_refl _) (fun hlt => { h.agrees hlt with }) h.processing_le
    h.report_le h.early h.blank

/-- Starting on the stored report leaves the report itself alone. -/
theorem Agreement.startProcessing {p : BaseOracle} {prev : Nat} (h : Agreement s now)
    (hp : s.processor.startProcessing env = .ok (p, prev)) : Agreement (s.withProcessor p) now := by
  obtain ⟨hhash, rfl⟩ := BaseOracle.startProcessing_ok_cases hp
  refine h.withProcessor h.processing_le (fun hlt => ?_) (Nat.le_refl _) h.report_le
    (fun hyet => absurd (h.early hyet).1 hhash) fun hversion => absurd (h.blank hversion).2.1 hhash
  exact { h.agrees (h.processing_le.trans_lt hlt) with }

theorem Agreement.step {x y : ConsensusSystem × Nat} (h : Agreement x.1 x.2)
    (hs : AttachedStep x y) : Agreement y.1 y.2 := by
  cases hs with
  | call hcall => exact h.of_advances (hcall.advances h.inv h.fits)
  | clock hclock => exact h.of_reframed hclock.reframed hclock.guard
  | setup hsetup =>
    cases hsetup with
    | initializeOracle hp => exact h.initializeOracle hp
    | setConsensusVersion hp => exact h.setConsensusVersion hp
  | startProcessing hp => exact h.startProcessing hp

/-- Every run of an attached system keeps the agreement. -/
theorem agreement_of_reachable {x : ConsensusSystem × Nat}
    (h : Reachable Deployed AttachedStep x) : Agreement x.1 x.2 :=
  h.invariant (fun _ => agreement_of_deployed) fun _ _ ha hs => ha.step hs

/-! ## What a reader sees -/

/-- A hash has the quorum exactly if a variant with that hash has it in its counter. -/
theorem quorum_le_supporters_iff {c : HashConsensus} {r : Nat} (hk : WellKept c r) (hr : 0 < r)
    (hcounted : Counted c r) (hquorum : c.quorum ≠ 0) {hash : Hash} (hhash : hash ≠ ZERO_HASH) :
    c.quorum ≤ (c.supporters r hash).length ↔
      ∃ i < c.variantsLengthFor r, (c.reportVariants i).hash = hash ∧
        c.quorum ≤ (c.reportVariants i).support := by
  constructor
  · intro hle
    -- some member reports the hash, and its variant carries it
    have hpos : 0 < (c.supporters r hash).length := by omega
    rw [length_supporters hk.lengths, List.countP_pos_iff] at hpos
    obtain ⟨m, hm, hreport⟩ := hpos
    rw [decide_eq_true_eq, memberReport] at hreport
    split at hreport
    · next heq =>
      have hlt := hk.variant_lt hr m hm heq
      refine ⟨_, hlt, hreport, ?_⟩
      rw [hcounted _ hlt, ← hk.length_supporters hr hlt, hreport]
      exact hle
    · exact absurd hreport.symm hhash
  · rintro ⟨i, hi, rfl, hle⟩
    rw [hk.length_supporters hr hi, ← hcounted i hi]
    exact hle

theorem Agreement.stored_iff (h : Agreement s now)
    (hidle : s.lastProcessingRefSlot < s.consensus.currentRefSlot now)
    (hquorum : s.consensus.quorum ≠ 0) {hash : Hash} (hhash : hash ≠ ZERO_HASH) :
    (s.processor.consensusReport.refSlot = s.consensus.currentRefSlot now ∧
        s.processor.consensusReport.hash = hash) ↔
      s.consensus.quorum ≤ (s.consensus.supporters (s.consensus.currentRefSlot now) hash).length := by
  have hr : 0 < s.consensus.currentRefSlot now := by omega
  have hsync := h.inv.sync hidle
  have hagrees := h.agrees hidle
  rw [quorum_le_supporters_iff h.inv.kept hr hsync.counted hquorum hhash]
  constructor
  · rintro ⟨hslot, rfl⟩
    have hrecord := hagrees.submitted.mp ⟨hslot, hhash⟩
    exact ⟨_, h.inv.kept.consensus_lt hr hrecord, (hagrees.hash hrecord).symm,
      hsync.recorded hrecord⟩
  · rintro ⟨i, hi, rfl, hle⟩
    have hrecord := h.reached hidle i hi hle
    obtain ⟨hslot, -⟩ := hagrees.submitted.mpr hrecord
    refine ⟨hslot, ?_⟩
    -- the recorded variant has the quorum too, so it is this one
    have hlt := h.inv.kept.consensus_lt hr hrecord
    have hmajority : s.consensus.memberStates.length < 2 * s.consensus.quorum := by
      rcases h.inv.majoritarian with hmajority | ⟨hzero, -⟩
      · exact hmajority
      · exact absurd hzero hquorum
    have hsame := Majority.unique hmajority
      ((hsync.recorded hrecord).trans (hsync.counted _ hlt).le) (hle.trans (hsync.counted i hi).le)
    rw [hagrees.hash hrecord, hsame]

/-- `_getConsensusReport` returns the hash that has the quorum, or zero. -/
theorem getConsensusReport_iff {c : HashConsensus} {r : Nat} (hk : WellKept c r) (hr : 0 < r)
    (hcounted : Counted c r) (hmajority : c.memberStates.length < 2 * c.quorum) {hash : Hash}
    (hhash : hash ≠ ZERO_HASH) :
    (c.getConsensusReport r c.quorum).1 = hash ↔ c.quorum ≤ (c.supporters r hash).length := by
  rw [quorum_le_supporters_iff hk hr hcounted (by omega) hhash]
  unfold getConsensusReport
  split
  · next hother =>
    have hlength : c.variantsLengthFor r = 0 := by
      unfold variantsLengthFor
      rw [if_pos hother]
    constructor
    · intro heq
      exact absurd heq.symm hhash
    · rintro ⟨i, hi, -, -⟩
      omega
  · next hreport =>
    rw [not_not] at hreport
    cases hfind : c.findSupported c.quorum c.reportVariantsLength 0 with
    | some j =>
      obtain ⟨hj, hquorum⟩ := findSupported_eq_some hfind
      have hj := lt_variantsLengthFor.mpr ⟨hreport, hj⟩
      constructor
      · intro heq
        exact ⟨j, hj, heq, hquorum⟩
      · rintro ⟨i, hi, rfl, hle⟩
        -- two variants with the quorum are one
        rw [Majority.unique hmajority (hle.trans (hcounted i hi).le)
          (hquorum.trans (hcounted j hj).le)]
    | none =>
      constructor
      · intro heq
        exact absurd heq.symm hhash
      · rintro ⟨i, hi, -, hle⟩
        have hless := findSupported_eq_none hfind i (Nat.zero_le i) (lt_variantsLengthFor.mp hi).2
        omega

/-- While the quorum was never set, there is nothing that the contract could have submitted. -/
theorem Agreement.nothing_stored (h : Agreement s now)
    (hidle : s.lastProcessingRefSlot < s.consensus.currentRefSlot now)
    (hlength : s.consensus.reportVariantsLength = 0) :
    ¬ (s.processor.consensusReport.refSlot = s.consensus.currentRefSlot now ∧
      s.processor.consensusReport.hash ≠ ZERO_HASH) := by
  intro hstored
  have hrecord := (h.agrees hidle).submitted.mp hstored
  have hlt := h.inv.kept.consensus_lt (by omega) hrecord
  rw [lt_variantsLengthFor] at hlt
  omega

/--
**Agreement.** In every run with an attached processor that has not started on the current slot,
the processor's stored report for the slot has hash `hash` exactly if a quorum of the current
members reports `hash`; there is at most one such hash, and `getConsensusState` returns it, or
zero. Until the quorum is set there are no members and no report.
-/
theorem consensus_agreement (hreach : Reachable Deployed AttachedStep (s, now))
    (hnow : env.timestamp = now) {frame : ConsensusFrame}
    (hframe : s.consensus.getCurrentFrame env = .ok frame)
    (hidle : s.lastProcessingRefSlot ≠ frame.refSlot) :
    (s.consensus.quorum ≠ 0 →
      (∀ hash, hash ≠ ZERO_HASH →
        ((s.processor.consensusReport.refSlot = frame.refSlot ∧
            s.processor.consensusReport.hash = hash) ↔
          s.consensus.quorum ≤ (s.consensus.supporters frame.refSlot hash).length)) ∧
      (∀ hash hash', hash ≠ ZERO_HASH → hash' ≠ ZERO_HASH →
        s.consensus.quorum ≤ (s.consensus.supporters frame.refSlot hash).length →
        s.consensus.quorum ≤ (s.consensus.supporters frame.refSlot hash').length →
        hash = hash') ∧
      ∃ report, s.getConsensusState env = .ok (frame.refSlot, report, false) ∧
        ∀ hash, hash ≠ ZERO_HASH →
          (report = hash ↔
            s.consensus.quorum ≤ (s.consensus.supporters frame.refSlot hash).length)) ∧
    (∀ hash, (s.consensus.supporters frame.refSlot hash).Nodup) ∧
    (s.consensus.quorum = 0 →
      s.consensus.memberStates = [] ∧
      ¬ (s.processor.consensusReport.refSlot = frame.refSlot ∧
        s.processor.consensusReport.hash ≠ ZERO_HASH) ∧
      s.getConsensusState env = .ok (frame.refSlot, ZERO_HASH, false)) := by
  subst hnow
  have h : Agreement s env.timestamp := agreement_of_reachable hreach
  have hkept : WellKept s.consensus (s.consensus.currentRefSlot env.timestamp) := h.inv.kept
  have hprocessing : s.lastProcessingRefSlot ≤ s.consensus.currentRefSlot env.timestamp :=
    h.processing_le.trans h.report_le
  obtain ⟨-, hrefSlot, -⟩ := getCurrentFrame_ok_cases h.fits hframe
  -- processing never runs ahead of the current slot, so the slot is after the processed one
  have hlt : s.lastProcessingRefSlot < s.consensus.currentRefSlot env.timestamp := by omega
  have hr : 0 < s.consensus.currentRefSlot env.timestamp := by omega
  have hcounted := (h.inv.sync hlt).counted
  have hstate : s.getConsensusState env
      = .ok (frame.refSlot, (s.consensus.getConsensusReport frame.refSlot s.consensus.quorum).1,
          false) := by
    simp only [getConsensusState, hframe, ok_bind, decide_eq_false hidle]
    rfl
  rw [hrefSlot] at hstate ⊢
  refine ⟨fun hquorum => ?_, fun hash => hkept.nodup_supporters hash, fun hzero => ?_⟩
  · have hmajority : s.consensus.memberStates.length < 2 * s.consensus.quorum := by
      rcases h.inv.majoritarian with hmajority | ⟨hzero, -⟩
      · exact hmajority
      · exact absurd hzero hquorum
    have hreport : ∀ {hash}, hash ≠ ZERO_HASH →
        ((s.consensus.getConsensusReport (s.consensus.currentRefSlot env.timestamp)
            s.consensus.quorum).1 = hash ↔
          s.consensus.quorum
            ≤ (s.consensus.supporters (s.consensus.currentRefSlot env.timestamp) hash).length) :=
      fun hhash => getConsensusReport_iff hkept hr hcounted hmajority hhash
    refine ⟨fun hash hhash => h.stored_iff hlt hquorum hhash, ?_, _, hstate,
      fun hash hhash => hreport hhash⟩
    intro hash hash' hhash hhash' hle hle'
    exact ((hreport hhash).mpr hle).symm.trans ((hreport hhash').mpr hle')
  · have hnone : s.consensus.memberStates = [] ∧ s.consensus.reportVariantsLength = 0 := by
      rcases h.inv.majoritarian with hmajority | ⟨-, hnone⟩
      · have hmajority : s.consensus.memberStates.length < 2 * s.consensus.quorum := hmajority
        omega
      · exact hnone
    refine ⟨hnone.1, h.nothing_stored hlt hnone.2, ?_⟩
    rw [hstate]
    simp [getConsensusReport, hnone.2, findSupported]

/-! ## Two runs -/

instance (c : HashConsensus) (timestamp : Nat) : Decidable (c.SlotsFit timestamp) :=
  inferInstanceAs (Decidable (_ → _))

/-- A chain with epochs of 32 slots and slots of 12 seconds. -/
def exampleChain : ChainConfig := ⟨32, 12, 0, by decide, by decide⟩

/-- A contract at address 9 with admin 1, right after it was attached to the processor at 2. -/
def exampleDeployment : ConsensusSystem where
  self := 9
  consensus := result (HashConsensus.deploy exampleChain 1 0 1 2) (by decide +kernel)
  processors := fun _ => BaseOracle.blank 12 0
  submissions := []

theorem deployed_exampleDeployment : Deployed (exampleDeployment, 1) :=
  ⟨exampleChain, 1, 0, 1, 2, _, eq_ok_result _ (by decide +kernel), rfl, rfl, by decide, rfl,
    by decide +kernel⟩

/-- A call by the account `sender` in the block at `timestamp`. -/
def exampleEnv (sender : Address) (timestamp : Nat) (h : 0 < timestamp) : Env :=
  ⟨sender, 0, timestamp, h⟩

theorem exampleReportTime_pos : 0 < 384 := by decide

/-- Epoch 1 becomes the initial epoch; it begins at time 384. -/
def exampleScheduled : ConsensusSystem :=
  result (exampleDeployment.updateInitialEpoch (exampleEnv 1 1 Nat.one_pos) 1) (by decide +kernel)

theorem reachable_exampleScheduled : Reachable Deployed AttachedStep (exampleScheduled, 1) := by
  have h₀ : Reachable Deployed AttachedStep (exampleDeployment, 1) :=
    .init deployed_exampleDeployment
  exact h₀.step (.clock (.configure
    (@ConfigCall.updateInitialEpoch (exampleEnv 1 1 Nat.one_pos) _ _ 1
      (eq_ok_result _ (by decide +kernel))) (by decide +kernel)))

/--
Before the quorum is set, every hash has the support of zero members, which is the quorum; but
the processor has no report.
-/
theorem not_agreement_without_quorum : ∃ (s : ConsensusSystem) (env : Env) (frame : ConsensusFrame),
    Reachable Deployed AttachedStep (s, env.timestamp) ∧
    s.consensus.getCurrentFrame env = .ok frame ∧ s.lastProcessingRefSlot ≠ frame.refSlot ∧
    ¬ ∀ hash, hash ≠ ZERO_HASH →
      ((s.processor.consensusReport.refSlot = frame.refSlot ∧
          s.processor.consensusReport.hash = hash) ↔
        s.consensus.quorum ≤ (s.consensus.supporters frame.refSlot hash).length) := by
  have h := reachable_exampleScheduled.step
    (.clock (@ClockStep.tick _ _ _ 384 (by decide) (by decide +kernel)))
  refine ⟨_, exampleEnv 1 384 exampleReportTime_pos, _, h, eq_ok_result _ (by decide +kernel),
    by decide +kernel, fun hagree => ?_⟩
  have hnone := (hagree 5 (by decide)).mpr (by decide +kernel)
  revert hnone
  decide +kernel

theorem isOk_initializeOracle :
    (exampleScheduled.processor.initializeOracle exampleScheduled.consensus 9 1 0).isOk := by
  decide +kernel

/-- The processor accepts calls from the contract, and account 1 has all roles. -/
def exampleInitialized : ConsensusSystem :=
  { exampleScheduled with
    consensus := { exampleScheduled.consensus with hasRole := fun _ _ => true } }.withProcessor
      (result (exampleScheduled.processor.initializeOracle exampleScheduled.consensus 9 1 0)
        isOk_initializeOracle)

/-- Account 3 is a member, and its report is enough for the quorum. -/
def exampleMember : ConsensusSystem :=
  result (exampleInitialized.addMember (exampleEnv 1 1 Nat.one_pos) 3 1) (by decide +kernel)

def exampleReported : ConsensusSystem :=
  result (exampleMember.submitReport (exampleEnv 3 384 exampleReportTime_pos) 31 5 1) (by decide +kernel)

theorem reachable_exampleReported : Reachable Deployed AttachedStep (exampleReported, 384) := by
  have h₁ := reachable_exampleScheduled.step (.clock (.configure
    (@ConfigCall.setRoles (exampleEnv 1 1 Nat.one_pos) _ fun _ _ => true) (by decide +kernel)))
  have h₂ : Reachable Deployed AttachedStep (exampleInitialized, 1) :=
    h₁.step (.setup (@SetupCall.initializeOracle _ _ 1 0 (eq_ok_result _ (by decide +kernel))))
  have h₃ : Reachable Deployed AttachedStep (exampleMember, 1) := h₂.step (AttachedStep.call
    (@ContractCall.addMember (exampleEnv 1 1 Nat.one_pos) _ _ 3 1
      (eq_ok_result _ (by decide +kernel))))
  have h₄ := h₃.step (.clock (@ClockStep.tick _ _ _ 384 (by decide) (by decide +kernel)))
  exact h₄.step (AttachedStep.call
    (@ContractCall.submitReport (exampleEnv 3 384 exampleReportTime_pos) _ _ 31 1 5
      (eq_ok_result _ (by decide +kernel))))

/-- A run with one member whose report is submitted. -/
theorem consensus_agreement_one_member :
    1 ≤ (exampleReported.consensus.supporters 31 5).length ∧
    exampleReported.getConsensusState (exampleEnv 3 384 exampleReportTime_pos) = .ok (31, 5, false) := by
  have hframe : exampleReported.consensus.getCurrentFrame (exampleEnv 3 384 exampleReportTime_pos)
      = .ok ⟨0, 31, 63⟩ := by decide +kernel
  have hone : exampleReported.consensus.quorum = 1 := by decide +kernel
  obtain ⟨hquorum, -, -⟩ := consensus_agreement reachable_exampleReported
    (rfl : (exampleEnv 3 384 exampleReportTime_pos).timestamp = 384) hframe (by decide +kernel)
  rw [hone] at hquorum
  obtain ⟨hstored, -, report, hstate, hreport⟩ := hquorum Nat.one_ne_zero
  have hsupported := (hstored 5 (by decide)).mp (by decide +kernel)
  have hfive := (hreport 5 (by decide)).mpr hsupported
  exact ⟨hsupported, hfive ▸ hstate⟩

end ConsensusSystem

end Catalist
