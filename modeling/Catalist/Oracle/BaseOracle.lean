import Catalist.Oracle.Frames

/-!
# The report processor

`BaseOracle.sol`: the calls that `HashConsensus` makes (`submitConsensusReport`,
`discardConsensusReport`), `_initialize`, `setConsensusVersion`, `_checkConsensusData` and
`_startProcessing`. The hooks
`_handleConsensusReport` and `_handleConsensusReportDiscarded` of the descendants only emit
events and are left out.

The lemmas after each function give its guards and its effect.
-/

namespace Catalist

open Solidity

namespace BaseOracle

variable {p p' : BaseOracle} {env : Env} {consensus : HashConsensus}

/-- A processor before `_initialize`. -/
def blank (secondsPerSlot genesisTime : Nat) : BaseOracle where
  secondsPerSlot := secondsPerSlot
  genesisTime := genesisTime
  contractVersion := 0
  consensusContract := 0
  consensusVersion := 0
  lastProcessingRefSlot := 0
  consensusReport := { hash := ZERO_HASH, refSlot := 0, processingDeadlineTime := 0 }

/-- `_setConsensusContract`; `consensus` is the contract at `addr`. -/
def setConsensusContract (p : BaseOracle) (consensus : HashConsensus) (addr : Address)
    (lastProcessingRefSlot : Nat) : Call OracleError BaseOracle := do
  require (addr ≠ 0) .addressCannotBeZero
  require (addr ≠ p.consensusContract) .addressCannotBeSame
  require (consensus.chain.secondsPerSlot = p.secondsPerSlot ∧
    consensus.chain.genesisTime = p.genesisTime) .unexpectedChainConfig
  let initialFrame ← consensus.getInitialFrame
  require (lastProcessingRefSlot ≤ initialFrame.refSlot)
    (.initialRefSlotCannotBeLessThanProcessingOne initialFrame.refSlot lastProcessingRefSlot)
  return { p with consensusContract := addr }

/-- `_setConsensusVersion` -/
def setConsensusVersion (p : BaseOracle) (version : Nat) : Call OracleError BaseOracle := do
  require (version ≠ p.consensusVersion) .versionCannotBeSame
  return { p with consensusVersion := version }

/-- `_initialize` -/
def initializeOracle (p : BaseOracle) (consensus : HashConsensus) (consensusContract : Address)
    (consensusVersion lastProcessingRefSlot : Nat) : Call OracleError BaseOracle := do
  require (p.contractVersion = 0) .nonZeroContractVersionOnInit
  let p := { p with contractVersion := 1 }
  let p ← p.setConsensusContract consensus consensusContract lastProcessingRefSlot
  let p ← p.setConsensusVersion consensusVersion
  let refSlot ← toUint64 lastProcessingRefSlot
  return { p with
    lastProcessingRefSlot := lastProcessingRefSlot
    consensusReport := { p.consensusReport with refSlot := refSlot } }

/-- `submitConsensusReport` -/
def submitConsensusReport (p : BaseOracle) (env : Env) (reportHash : Hash)
    (refSlot deadline : Nat) : Call OracleError BaseOracle := do
  require (env.sender = p.consensusContract) .senderIsNotTheConsensusContract
  let prevSubmittedRefSlot := p.consensusReport.refSlot
  require (prevSubmittedRefSlot ≤ refSlot) (.refSlotCannotDecrease refSlot prevSubmittedRefSlot)
  let prevProcessingRefSlot := p.lastProcessingRefSlot
  require (prevProcessingRefSlot < refSlot)
    (.refSlotMustBeGreaterThanProcessingOne refSlot prevProcessingRefSlot)
  require (env.timestamp ≤ deadline) (.processingDeadlineMissed deadline)
  require (reportHash ≠ ZERO_HASH) .hashCannotBeZero
  let reportRefSlot ← toUint64 refSlot
  let processingDeadlineTime ← toUint64 deadline
  return { p with
    consensusReport :=
      { hash := reportHash, refSlot := reportRefSlot,
        processingDeadlineTime := processingDeadlineTime } }

/-- `discardConsensusReport` -/
def discardConsensusReport (p : BaseOracle) (env : Env) (refSlot : Nat) :
    Call OracleError BaseOracle := do
  require (env.sender = p.consensusContract) .senderIsNotTheConsensusContract
  let submittedReport := p.consensusReport
  if refSlot < submittedReport.refSlot then
    .error (.error (.refSlotCannotDecrease refSlot submittedReport.refSlot))
  else if submittedReport.refSlot < refSlot then
    return p
  else do
    require (p.lastProcessingRefSlot < refSlot) .refSlotAlreadyProcessing
    return { p with consensusReport := { submittedReport with hash := ZERO_HASH } }

/-- `_checkContractVersion` -/
def checkContractVersion (p : BaseOracle) (version : Nat) : Call OracleError Unit :=
  require (version = p.contractVersion) (.unexpectedContractVersion p.contractVersion version)

/-- `_checkConsensusData` -/
def checkConsensusData (p : BaseOracle) (refSlot consensusVersion : Nat) (hash : Hash) :
    Call OracleError Unit := do
  let report := p.consensusReport
  require (refSlot = report.refSlot) (.unexpectedRefSlot report.refSlot refSlot)
  require (consensusVersion = p.consensusVersion)
    (.unexpectedConsensusVersion p.consensusVersion consensusVersion)
  require (hash = report.hash) (.unexpectedDataHash report.hash hash)

/-- `_startProcessing`; it returns the reference slot processed before. -/
def startProcessing (p : BaseOracle) (env : Env) : Call OracleError (BaseOracle × Nat) := do
  let report := p.consensusReport
  require (report.hash ≠ ZERO_HASH) .noConsensusReportToProcess
  require (env.timestamp ≤ report.processingDeadlineTime)
    (.processingDeadlineMissed report.processingDeadlineTime)
  let prevProcessingRefSlot := p.lastProcessingRefSlot
  require (prevProcessingRefSlot ≠ report.refSlot) .refSlotAlreadyProcessing
  return ({ p with lastProcessingRefSlot := report.refSlot }, prevProcessingRefSlot)

/-! ## Effects -/

theorem setConsensusVersion_ok_cases {version : Nat} (h : p.setConsensusVersion version = .ok p') :
    p' = { p with consensusVersion := version } := by
  simp only [setConsensusVersion, bind_eq_ok, pure_eq_ok] at h
  obtain ⟨_, -, rfl⟩ := h
  rfl

theorem initializeOracle_ok_cases {addr : Address} {version lastProcessingRefSlot : Nat}
    (h : p.initializeOracle consensus addr version lastProcessingRefSlot = .ok p') :
    p.contractVersion = 0 ∧
    (∃ frame, consensus.getInitialFrame = .ok frame ∧ lastProcessingRefSlot ≤ frame.refSlot) ∧
    p' = { p with
      contractVersion := 1
      consensusContract := addr
      consensusVersion := version
      lastProcessingRefSlot := lastProcessingRefSlot
      consensusReport := { p.consensusReport with refSlot := lastProcessingRefSlot } } := by
  simp only [initializeOracle, setConsensusContract, setConsensusVersion, toUint64, bind_eq_ok, pure_eq_ok,
    require_eq_ok] at h
  obtain ⟨_, hversion, _, ⟨_, _, _, _, _, _, frame, hframe, _, hle, rfl⟩, _, ⟨_, _, rfl⟩, _,
    ⟨_, _, rfl⟩, rfl⟩ := h
  exact ⟨hversion, ⟨frame, hframe, hle⟩, rfl⟩

theorem submitConsensusReport_ok_cases {hash : Hash} {refSlot deadline : Nat}
    (h : p.submitConsensusReport env hash refSlot deadline = .ok p') :
    env.sender = p.consensusContract ∧ p.lastProcessingRefSlot < refSlot ∧ hash ≠ ZERO_HASH ∧
    p' = { p with
      consensusReport :=
        { hash := hash, refSlot := refSlot, processingDeadlineTime := deadline } } := by
  simp only [submitConsensusReport, toUint64, bind_eq_ok, pure_eq_ok, require_eq_ok] at h
  obtain ⟨_, hsender, _, _, _, hprocessing, _, _, _, hhash, _, ⟨_, _, rfl⟩, _, ⟨_, _, rfl⟩, rfl⟩ := h
  exact ⟨hsender, hprocessing, hhash, rfl⟩

/-- A report for the slot is dropped; a report for an earlier slot is left alone. -/
theorem discardConsensusReport_ok_cases {refSlot : Nat}
    (h : p.discardConsensusReport env refSlot = .ok p') :
    env.sender = p.consensusContract ∧
    ((p.consensusReport.refSlot < refSlot ∧ p' = p) ∨
      (p.consensusReport.refSlot = refSlot ∧
        p' = { p with consensusReport := { p.consensusReport with hash := ZERO_HASH } })) := by
  simp only [discardConsensusReport, bind_eq_ok, require_eq_ok] at h
  obtain ⟨_, hsender, h⟩ := h
  refine ⟨hsender, ?_⟩
  split at h
  · cases h
  · next hge =>
    split at h
    · next hlt =>
      exact .inl ⟨hlt, (pure_eq_ok.mp h).symm⟩
    · next hle =>
      simp only [bind_eq_ok, require_eq_ok, pure_eq_ok] at h
      obtain ⟨_, _, rfl⟩ := h
      exact .inr ⟨by omega, rfl⟩

theorem startProcessing_ok_cases {prev : Nat} (h : p.startProcessing env = .ok (p', prev)) :
    p.consensusReport.hash ≠ ZERO_HASH ∧
    p' = { p with lastProcessingRefSlot := p.consensusReport.refSlot } := by
  simp only [startProcessing, bind_eq_ok, require_eq_ok, pure_eq_ok, Prod.mk.injEq] at h
  obtain ⟨_, hhash, _, _, _, _, rfl, _⟩ := h
  exact ⟨hhash, rfl⟩

end BaseOracle

end Catalist
