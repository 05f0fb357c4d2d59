import Catalist.Oracle.Agreement

/-!
# Submissions and the quorum

Every hash that `HashConsensus` submits should be the latest report of a quorum of its members at
that moment. The counters that it goes by are kept up to date only while the attached processor
has not started on the current slot: from then on members leave and the quorum changes without
an update. `setReportProcessor` can attach a processor that has not started, and nothing is
recounted then.

So the property holds in the runs in which such a replacement only happens while the counters
are still right (`StillInSync`), and there is a run without this condition that breaks it. The slots
of the current frame have to fit 64 bits, too: truncated slots can come back, and with them the
reports for them.
-/

namespace Catalist

open Solidity HashConsensus Transition

namespace BaseOracle

variable {p p' : BaseOracle}

/-! ## Processors do not go back -/

/-- A call of an initialized processor, from any account and with any consensus contract. -/
inductive ProcessorCall : BaseOracle → BaseOracle → Prop where
  | setConsensusContract {p p' : BaseOracle} {consensus : HashConsensus} {addr : Address} :
      p.setConsensusContract consensus addr p.lastProcessingRefSlot = .ok p' → ProcessorCall p p'
  | setConsensusVersion {p p' : BaseOracle} {version : Nat} :
      p.setConsensusVersion version = .ok p' → ProcessorCall p p'
  | submitConsensusReport {p p' : BaseOracle} {env : Env} {hash : Hash} {refSlot deadline : Nat} :
      p.submitConsensusReport env hash refSlot deadline = .ok p' → ProcessorCall p p'
  | discardConsensusReport {p p' : BaseOracle} {env : Env} {refSlot : Nat} :
      p.discardConsensusReport env refSlot = .ok p' → ProcessorCall p p'
  | startProcessing {p p' : BaseOracle} {env : Env} {prev : Nat} :
      p.startProcessing env = .ok (p', prev) → ProcessorCall p p'

/-- The processed slot is at most the slot of the stored report. -/
def Ordered (p : BaseOracle) : Prop := p.lastProcessingRefSlot ≤ p.consensusReport.refSlot

theorem ordered_of_initializeOracle {consensus : HashConsensus} {addr : Address}
    {version lastProcessingRefSlot : Nat}
    (h : p.initializeOracle consensus addr version lastProcessingRefSlot = .ok p') : Ordered p' := by
  obtain ⟨-, -, rfl⟩ := initializeOracle_ok_cases h
  exact Nat.le_refl _

theorem ProcessorCall.ordered (h : ProcessorCall p p') (ho : Ordered p) :
    Ordered p' ∧ p.lastProcessingRefSlot ≤ p'.lastProcessingRefSlot := by
  cases h with
  | setConsensusContract h =>
    simp only [BaseOracle.setConsensusContract, bind_eq_ok, require_eq_ok, pure_eq_ok] at h
    obtain ⟨_, _, _, _, _, _, _, _, _, _, rfl⟩ := h
    exact ⟨ho, Nat.le_refl _⟩
  | setConsensusVersion h =>
    obtain rfl := setConsensusVersion_ok_cases h
    exact ⟨ho, Nat.le_refl _⟩
  | submitConsensusReport h =>
    obtain ⟨-, hlt, -, rfl⟩ := submitConsensusReport_ok_cases h
    exact ⟨hlt.le, Nat.le_refl _⟩
  | discardConsensusReport h =>
    obtain ⟨-, ⟨-, rfl⟩ | ⟨-, rfl⟩⟩ := discardConsensusReport_ok_cases h
    · exact ⟨ho, Nat.le_refl _⟩
    · exact ⟨ho, Nat.le_refl _⟩
  | startProcessing h =>
    obtain ⟨-, rfl⟩ := startProcessing_ok_cases h
    exact ⟨Nat.le_refl _, ho⟩

end BaseOracle

namespace ConsensusSystem

variable {s s' : ConsensusSystem} {now : Nat} {env : Env} {newProcessor : Address}
  {Guard : ConsensusSystem → Env → Address → Prop}

/-! ## Runs with replacements -/

/-- The contract after its constructor, with any processors. -/
def Fresh (x : ConsensusSystem × Nat) : Prop :=
  ∃ chain epochsPerFrame fast admin reportProcessor,
    HashConsensus.deploy chain epochsPerFrame fast admin reportProcessor = .ok x.1.consensus ∧
    x.1.submissions = [] ∧ x.1.consensus.SlotsFit x.2

/--
The steps of a system whose processor is replaced under the condition `Guard`. The processors
may do anything but go back to an earlier slot.
-/
inductive ReplacingStep (Guard : ConsensusSystem → Env → Address → Prop) :
    ConsensusSystem × Nat → ConsensusSystem × Nat → Prop where
  | call {s s' : ConsensusSystem} {env : Env} :
      ContractCall env s s' → ReplacingStep Guard (s, env.timestamp) (s', env.timestamp)
  | clock {x y : ConsensusSystem × Nat} : ClockStep SlotsFit x y → ReplacingStep Guard x y
  | process {s : ConsensusSystem} {addr : Address} {p : BaseOracle} {now : Nat} :
      (s.processors addr).lastProcessingRefSlot ≤ p.lastProcessingRefSlot →
      ReplacingStep Guard (s, now) ({ s with processors := Function.update s.processors addr p }, now)
  | setReportProcessor {s s' : ConsensusSystem} {env : Env} {newProcessor : Address} :
      Guard s env newProcessor → s.setReportProcessor env newProcessor = .ok s' →
      ReplacingStep Guard (s, env.timestamp) (s', env.timestamp)

/--
If the attached processor has started on the current slot and the new one has not, the counters
are the members' reports and a recorded consensus has its quorum.
-/
def StillInSync (s : ConsensusSystem) (env : Env) (newProcessor : Address) : Prop :=
  s.consensus.currentRefSlot env.timestamp ≤ s.lastProcessingRefSlot →
  (s.processors newProcessor).lastProcessingRefSlot < s.consensus.currentRefSlot env.timestamp →
  InSync s.consensus (s.consensus.currentRefSlot env.timestamp)

theorem Inv.process {addr : Address} {p : BaseOracle} (h : Inv s now)
    (hle : (s.processors addr).lastProcessingRefSlot ≤ p.lastProcessingRefSlot) :
    Inv { s with processors := Function.update s.processors addr p } now := by
  refine { h with sync := fun hlt => h.sync (Nat.lt_of_le_of_lt ?_ hlt) }
  simp only [lastProcessingRefSlot, processor]
  rcases eq_or_ne s.consensus.reportProcessor addr with heq | hne
  · rw [heq, Function.update_self]
    exact hle
  · rw [Function.update_of_ne hne]

/-- Replacing the processor submits the recorded consensus, which still has its quorum. -/
theorem Inv.setReportProcessor (h : Inv s env.timestamp) (hfit : s.consensus.SlotsFit env.timestamp)
    (hguard : StillInSync s env newProcessor)
    (hs : s.setReportProcessor env newProcessor = .ok s') :
    Inv s' env.timestamp ∧ s'.consensus.SlotsFit env.timestamp := by
  have hattached : Inv
      { s with consensus := { s.consensus with reportProcessor := newProcessor } } env.timestamp := by
    refine ⟨{ h.kept with }, h.majoritarian, fun hyet => { h.early hyet with }, fun hlt => ?_,
      h.backed⟩
    have hlt : (s.processors newProcessor).lastProcessingRefSlot
        < s.consensus.currentRefSlot env.timestamp := hlt
    rcases Nat.lt_or_ge s.lastProcessingRefSlot (s.consensus.currentRefSlot env.timestamp) with
      hidle | hprocessing
    · exact { h.sync hidle with }
    · exact { hguard hprocessing hlt with }
  obtain ⟨frame, hframe, ⟨hprev, hnext, hrecord, p, rfl, hp⟩ | rfl⟩ := setReportProcessor_ok_cases hs
  · obtain ⟨-, hrefSlot, -⟩ := getCurrentFrame_ok_cases hfit hframe
    rw [hrefSlot] at hprev hnext hrecord
    have hr : 0 < s.consensus.currentRefSlot env.timestamp := by omega
    have hkept : WellKept s.consensus (s.consensus.currentRefSlot env.timestamp) := h.kept
    have hsync := h.sync hprev
    have hi := hkept.consensus_lt hr hrecord
    have hquorum : s.consensus.quorum ≤ (s.consensus.supporters frame.refSlot
        (s.consensus.reportVariants s.consensus.reportingState.lastConsensusVariantIndex).hash).length := by
      rw [hrefSlot, hkept.length_supporters hr hi, ← hsync.counted _ hi]
      exact hsync.recorded hrecord
    have hnodup := hkept.nodup_supporters
      (s.consensus.reportVariants s.consensus.reportingState.lastConsensusVariantIndex).hash
    rw [← hrefSlot] at hnodup
    refine ⟨{ hattached with sync := fun _ => { hsync with }, backed := ?_ }, hfit⟩
    intro e he
    rcases List.mem_append.mp he with he | he
    · exact h.backed e he
    · rw [List.mem_singleton.mp he]
      exact ⟨hquorum, hnodup⟩
  · exact ⟨hattached, hfit⟩

theorem inv_of_fresh {x : ConsensusSystem × Nat} (h : Fresh x) :
    Inv x.1 x.2 ∧ x.1.consensus.SlotsFit x.2 := by
  obtain ⟨chain, epochsPerFrame, fast, admin, reportProcessor, hdeploy, hsub, hfit⟩ := h
  obtain ⟨⟨self, consensus, processors, submissions⟩, now⟩ := x
  simp only at hsub hfit hdeploy ⊢
  subst hsub
  exact ⟨(inv_of_deploy self processors now hdeploy).1, hfit⟩

theorem ReplacingStep.inv {x y : ConsensusSystem × Nat} (hs : ReplacingStep StillInSync x y)
    (h : Inv x.1 x.2 ∧ x.1.consensus.SlotsFit x.2) : Inv y.1 y.2 ∧ y.1.consensus.SlotsFit y.2 := by
  obtain ⟨hinv, hfit⟩ := h
  cases hs with
  | call hcall =>
    have hadvances := hcall.advances hinv hfit
    refine ⟨hadvances.inv, ?_⟩
    simpa only [SlotsFit, hadvances.config.1, hadvances.config.2] using hfit
  | clock hclock => exact ⟨hclock.reframed.inv hinv, hclock.guard⟩
  | process hle => exact ⟨hinv.process hle, hfit⟩
  | setReportProcessor hguard hset => exact hinv.setReportProcessor hfit hguard hset

/--
**Quorum safety.** In every run whose replacements meet `StillInSync` and whose slots fit 64 bits
(`SlotsFit`), each submission is backed by a quorum of different members at its moment.
-/
theorem quorum_safety (hreach : Reachable Fresh (ReplacingStep StillInSync) (s, now)) :
    ∀ e ∈ s.submissions, Backed e :=
  (hreach.invariant (fun _ => inv_of_fresh) fun _ _ h hs => hs.inv h).1.backed

/-! ## Two runs -/

/-- A processor that accepts calls from the contract at 9. -/
def exampleProcessor : BaseOracle :=
  result (exampleScheduled.processor.initializeOracle exampleScheduled.consensus 9 1 0)
    isOk_initializeOracle

/-- The processors at 2 and 4 are initialized, and all accounts have all roles. -/
def exampleAttached : ConsensusSystem :=
  { exampleScheduled with
    consensus := { exampleScheduled.consensus with hasRole := fun _ _ => true }
    processors := Function.update
      (Function.update exampleScheduled.processors 2 exampleProcessor) 4 exampleProcessor }

/-- The calls that make accounts 11, 12 and 13 members. -/
def exampleJoin : Call OracleError ConsensusSystem := do
  let s ← exampleAttached.addMember (exampleEnv 1 1 Nat.one_pos) 11 1
  let s ← s.addMember (exampleEnv 1 1 Nat.one_pos) 12 2
  s.addMember (exampleEnv 1 1 Nat.one_pos) 13 2

def exampleMembers : ConsensusSystem := result exampleJoin (by decide +kernel)

/-- The calls with which two of the members report. -/
def exampleReport : Call OracleError ConsensusSystem := do
  let s ← exampleMembers.submitReport (exampleEnv 11 384 exampleReportTime_pos) 31 5 1
  s.submitReport (exampleEnv 12 384 exampleReportTime_pos) 31 5 1

/-- The processor at 2 has the report. -/
def exampleSubmitted : ConsensusSystem := result exampleReport (by decide +kernel)

theorem reachable_exampleSubmitted (Guard : ConsensusSystem → Env → Address → Prop) :
    Reachable Fresh (ReplacingStep Guard) (exampleSubmitted, 384) := by
  have h₀ : Reachable Fresh (ReplacingStep Guard) (exampleDeployment, 1) :=
    .init ⟨exampleChain, 1, 0, 1, 2, eq_ok_result _ (by decide +kernel), rfl, by decide +kernel⟩
  have h₁ := h₀.step (.clock (.configure
    (@ConfigCall.updateInitialEpoch (exampleEnv 1 1 Nat.one_pos) _ exampleScheduled 1
      (eq_ok_result _ (by decide +kernel))) (by decide +kernel)))
  have h₂ := h₁.step (.clock (.configure
    (@ConfigCall.setRoles (exampleEnv 1 1 Nat.one_pos) _ fun _ _ => true) (by decide +kernel)))
  have h₃ := h₂.step (@ReplacingStep.process _ _ 2 exampleProcessor _ (by decide +kernel))
  have h₄ : Reachable Fresh (ReplacingStep Guard) (exampleAttached, 1) :=
    h₃.step (@ReplacingStep.process _ _ 4 exampleProcessor _ (by decide +kernel))
  have hjoin : exampleJoin = .ok exampleMembers := eq_ok_result _ _
  simp only [exampleJoin, bind_eq_ok] at hjoin
  obtain ⟨s₁, hjoin₁, s₂, hjoin₂, hjoin₃⟩ := hjoin
  have h₅ : Reachable Fresh (ReplacingStep Guard) (exampleMembers, 1) :=
    ((h₄.step (.call (.addMember hjoin₁))).step (.call (.addMember hjoin₂))).step
      (.call (.addMember hjoin₃))
  have h₆ := h₅.step (.clock (@ClockStep.tick _ _ _ 384 (by decide) (by decide +kernel)))
  have hreport : exampleReport = .ok exampleSubmitted := eq_ok_result _ _
  simp only [exampleReport, bind_eq_ok] at hreport
  obtain ⟨s₃, hreport₁, hreport₂⟩ := hreport
  have h₇ : Reachable Fresh (ReplacingStep Guard) (s₃, 384) :=
    h₆.step (.call (.submitReport hreport₁))
  exact h₇.step (.call (.submitReport hreport₂))

/-- Replacing an idle processor submits the report once more, with the same two supporters. -/
theorem quorum_safety_replaced : ∃ s, Reachable Fresh (ReplacingStep StillInSync) (s, 384) ∧
    s.submissions.length = 2 ∧ ∀ e ∈ s.submissions, Backed e := by
  have h := (reachable_exampleSubmitted StillInSync).step
    (@ReplacingStep.setReportProcessor _ _ _ (exampleEnv 1 384 exampleReportTime_pos) 4
      (fun hprocessing => absurd hprocessing (by decide +kernel)) (eq_ok_result _ (by decide +kernel)))
  exact ⟨_, h, by decide +kernel, quorum_safety h⟩

/-- The processor at 2 has started on the report. -/
def exampleProcessing : ConsensusSystem :=
  exampleSubmitted.withProcessor
    (result (exampleSubmitted.processor.startProcessing (exampleEnv 1 384 exampleReportTime_pos))
      (by decide +kernel)).1

/-- The calls that raise the quorum and replace the processor twice. -/
def exampleReplace : Call OracleError ConsensusSystem := do
  let s ← exampleProcessing.setQuorum (exampleEnv 1 384 exampleReportTime_pos) 3
  let s ← s.setReportProcessor (exampleEnv 1 384 exampleReportTime_pos) 3
  s.setReportProcessor (exampleEnv 1 384 exampleReportTime_pos) 4

/--
A quorum raised while the report is processing, and two replacements of the processor: the hash
is submitted once more, with two supporters and a quorum of three.
-/
theorem not_backed_after_replacements : ∃ s e,
    Reachable Fresh (ReplacingStep fun _ _ _ => True) (s, 384) ∧
    e ∈ s.submissions ∧ e.quorum = 3 ∧ e.supporters = [11, 12] ∧ ¬ Backed e := by
  have h₁ := reachable_exampleSubmitted fun _ _ _ => True
  have h₂ : Reachable Fresh (ReplacingStep fun _ _ _ => True) (exampleProcessing, 384) :=
    h₁.step (@ReplacingStep.process _ _ _ _ _ (by decide +kernel))
  have hreplace := eq_ok_result exampleReplace (by decide +kernel)
  have hsubmitted : (⟨4, 5, 31, 3, [11, 12]⟩ : Submission)
      ∈ (result exampleReplace (by decide +kernel)).submissions := by decide +kernel
  simp only [exampleReplace, bind_eq_ok] at hreplace
  obtain ⟨s₁, hquorum, s₂, hreplace₁, hreplace₂⟩ := hreplace
  have h₃ := ((h₂.step (.call (@ContractCall.setQuorum
    (exampleEnv 1 384 exampleReportTime_pos) _ _ _ hquorum))).step
    (.setReportProcessor trivial hreplace₁)).step (.setReportProcessor trivial hreplace₂)
  refine ⟨_, _, h₃, hsubmitted, rfl, rfl, fun hbacked => ?_⟩
  exact absurd hbacked.quorum_le (by decide)

end ConsensusSystem

end Catalist
