import Catalist.Oracle.BaseOracle

/-!
# The hash consensus contract

`HashConsensus.sol`. Its functions run on a `ConsensusSystem`: the contract, the report
processors it may be attached to, and the reports it has submitted to them. A call either returns
the system changed or reverts, whichever contract reverts.

A submission is recorded with the quorum and with the members that stand behind the hash at the
moment of the call.
-/

namespace Catalist

open Solidity

/-- A call of `submitConsensusReport` that `HashConsensus` made. -/
structure Submission where
  processor : Address
  report : Hash
  refSlot : Nat
  /-- the quorum at the moment of the call -/
  quorum : Nat
  /-- the members whose latest report for `refSlot` was `report` at the moment of the call -/
  supporters : List Address
deriving DecidableEq, Repr

structure ConsensusSystem where
  /-- the address of the `HashConsensus` contract -/
  self : Address
  consensus : HashConsensus
  processors : Address → BaseOracle
  submissions : List Submission

namespace HashConsensus

variable (c : HashConsensus)

/--
The latest report of a member for a reference slot, zero if there is none: the value
`currentFrameMemberReport` of `getConsensusStateForMember`.
-/
def memberReport (refSlot : Nat) (m : MemberState) : Hash :=
  if m.lastReportRefSlot = refSlot then (c.reportVariants m.lastReportVariantIndex).hash
  else ZERO_HASH

/-- The members whose latest report for the slot is `report`. -/
def supporters (refSlot : Nat) (report : Hash) : List Address :=
  ((c.memberAddresses.zip c.memberStates).filter
    fun m => c.memberReport refSlot m.2 = report).map Prod.fst

/-! ## Members -/

def isMember (addr : Address) : Bool := c.memberIndices1b addr ≠ 0

def getMemberIndex (addr : Address) : Call OracleError Nat := do
  let index1b := c.memberIndices1b addr
  require (index1b ≠ 0) .nonMember
  return index1b - 1

/-- `Math.pointInClosedIntervalModN`: tests if x ∈ [a, b] (mod n). -/
def pointInClosedIntervalModN (x a b n : Nat) : Call OracleError Bool := do
  let sum ← checkedAdd 256 x n
  let fromA ← checkedSub sum a
  let offset ← checkedMod fromA n
  let span ← checkedSub b a
  let width ← checkedMod span n
  return offset ≤ width

/-- Start and past-end indices of the fast lane members subset. -/
def getFastLaneSubset (frameIndex totalMembers : Nat) : Call OracleError (Nat × Nat) := do
  if totalMembers ≤ c.quorum then return (0, totalMembers)
  else do
    let startIndex ← checkedMod frameIndex totalMembers
    let pastEndIndex ← checkedAdd 256 startIndex c.quorum
    return (startIndex, pastEndIndex)

def isFastLaneMember (index frameIndex : Nat) : Call OracleError Bool := do
  let totalMembers := c.memberStates.length
  let (flLeft, flPastRight) ← c.getFastLaneSubset frameIndex totalMembers
  if flPastRight = 0 then return false
  else pointInClosedIntervalModN index flLeft (flPastRight - 1) totalMembers

/-! ## Frame configuration -/

/-- `_setFrameConfig` -/
def setFrameConfigInternal (initialEpoch epochsPerFrame fastLaneLengthSlots : Nat) :
    Call OracleError HashConsensus := do
  require (epochsPerFrame ≠ 0) .epochsPerFrameCannotBeZero
  let frameLength ← checkedMul 256 epochsPerFrame c.chain.slotsPerEpoch
  require (fastLaneLengthSlots ≤ frameLength) .fastLanePeriodCannotBeLongerThanFrame
  let initialEpoch ← toUint64 initialEpoch
  let epochsPerFrame ← toUint64 epochsPerFrame
  let fastLaneLengthSlots ← toUint64 fastLaneLengthSlots
  return { c with
    frameConfig :=
      { initialEpoch := initialEpoch, epochsPerFrame := epochsPerFrame,
        fastLaneLengthSlots := fastLaneLengthSlots } }

/-- The storage that the constructor starts from, with the role and the processor it sets. -/
def initialStorage (chain : ChainConfig) (admin reportProcessor : Address) : HashConsensus where
  chain := chain
  frameConfig := { initialEpoch := 0, epochsPerFrame := 0, fastLaneLengthSlots := 0 }
  memberStates := []
  memberAddresses := []
  memberIndices1b := fun _ => 0
  reportingState :=
    { lastReportRefSlot := 0, lastConsensusRefSlot := 0, lastConsensusVariantIndex := 0 }
  quorum := 0
  reportVariants := fun _ => { hash := ZERO_HASH, support := 0 }
  reportVariantsLength := 0
  reportProcessor := reportProcessor
  hasRole := fun role account => role = .defaultAdmin ∧ account = admin

/-- The constructor. `slotsPerEpoch` and `secondsPerSlot` are checked by the type of `chain`. -/
def deploy (chain : ChainConfig) (epochsPerFrame fastLaneLengthSlots : Nat)
    (admin reportProcessor : Address) : Call OracleError HashConsensus := do
  require (admin ≠ 0) .adminCannotBeZero
  require (reportProcessor ≠ 0) .reportProcessorCannotBeZero
  let farFutureEpoch ← computeEpochAtTimestamp chain (2 ^ 64 - 1)
  (initialStorage chain admin reportProcessor).setFrameConfigInternal farFutureEpoch
    epochsPerFrame fastLaneLengthSlots

/-- `setFastLaneLengthSlots` -/
def setFastLaneLengthSlots (env : Env) (fastLaneLengthSlots : Nat) :
    Call OracleError HashConsensus := do
  require (c.hasRole .manageFastLaneConfig env.sender = true)
    (.missingRole .manageFastLaneConfig env.sender)
  let frameLength ← checkedMul 64 c.frameConfig.epochsPerFrame c.chain.slotsPerEpoch
  require (fastLaneLengthSlots ≤ frameLength) .fastLanePeriodCannotBeLongerThanFrame
  if fastLaneLengthSlots = c.frameConfig.fastLaneLengthSlots then return c
  else do
    let fastLaneLengthSlots ← toUint64 fastLaneLengthSlots
    return { c with
      frameConfig := { c.frameConfig with fastLaneLengthSlots := fastLaneLengthSlots } }

/-- `setFrameConfig` -/
def setFrameConfig (env : Env) (epochsPerFrame fastLaneLengthSlots : Nat) :
    Call OracleError HashConsensus := do
  require (c.hasRole .manageFrameConfig env.sender = true)
    (.missingRole .manageFrameConfig env.sender)
  let currentFrameStartEpoch ← computeFrameStartEpoch c.chain env.timestamp c.frameConfig
  c.setFrameConfigInternal currentFrameStartEpoch epochsPerFrame fastLaneLengthSlots

/-! ## The consensus report -/

/-- The loop of `_getConsensusReport`: the first variant from `i` on that has the quorum. -/
def findSupported (quorum variantsLength i : Nat) : Option Nat :=
  if i < variantsLength then
    if quorum ≤ (c.reportVariants i).support then some i
    else findSupported quorum variantsLength (i + 1)
  else none
termination_by variantsLength - i

/-- `_getConsensusReport`: the report, its variant index and its support. -/
def getConsensusReport (currentRefSlot quorum : Nat) : Hash × Option Nat × Nat :=
  if c.reportingState.lastReportRefSlot ≠ currentRefSlot then (ZERO_HASH, none, 0)
  else
    match c.findSupported quorum c.reportVariantsLength 0 with
    | some i => ((c.reportVariants i).hash, some i, (c.reportVariants i).support)
    | none => (ZERO_HASH, none, 0)

/-- The search of `_submitReport` for the variant of a report. -/
def findVariant (report : Hash) (variantsLength varIndex : Nat) : Call OracleError Nat :=
  if varIndex < variantsLength then
    if (c.reportVariants varIndex).hash ≠ report then do
      -- the counter is a `uint64`
      let _ ← checkedAdd 64 varIndex 1
      findVariant report variantsLength (varIndex + 1)
    else return varIndex
  else return varIndex
termination_by variantsLength - varIndex

/-! ## Parts of the member and report functions -/

/-- The tables of `_removeMember` after the last member has taken the place at `index`. -/
def moveLastMember (index newTotalMembers : Nat) :
    Call OracleError HashConsensus := do
  if index ≠ newTotalMembers then
    let addrToMove ← getIndex c.memberAddresses newTotalMembers
    let memberAddresses ← setIndex c.memberAddresses index addrToMove
    let lastState ← getIndex c.memberStates newTotalMembers
    let memberStates ← setIndex c.memberStates index lastState
    return { c with
      memberAddresses := memberAddresses
      memberStates := memberStates
      memberIndices1b := Function.update c.memberIndices1b addrToMove (index + 1) }
  else return c

/-- The part of `_submitReport` that keeps other members out of the fast lane interval. -/
def requireFastLane (currentSlot memberIndex : Nat) (frame : ConsensusFrame) :
    Call OracleError Unit := do
  let fastLaneEnd ← checkedAdd 256 frame.refSlot c.frameConfig.fastLaneLengthSlots
  if currentSlot ≤ fastLaneEnd then
    let isFastLaneMember ← c.isFastLaneMember memberIndex frame.index
    require (isFastLaneMember = true) .nonFastLaneMemberCannotReportWithinFastLaneInterval
  else return ()

/-- The part of `_submitReport` that takes back the member's report for the same slot. -/
def withdrawReport (memberState : MemberState)
    (slot variantsLength varIndex : Nat) : Call OracleError (HashConsensus × Bool) := do
  if slot = memberState.lastReportRefSlot then
    let prevVarIndex := memberState.lastReportVariantIndex
    ensure (prevVarIndex < variantsLength)
    require (varIndex ≠ prevVarIndex) .duplicateReport
    let variant := c.reportVariants prevVarIndex
    let support ← checkedSub variant.support 1
    let atQuorum ← checkedSub c.quorum 1
    return ({ c with
      reportVariants := Function.update c.reportVariants prevVarIndex
        { variant with support := support } }, support = atQuorum)
  else return (c, false)

/-- The part of `_submitReport` that counts the report; it returns the support it has now. -/
def countReport (report : Hash) (variantsLength varIndex : Nat) :
    Call OracleError (HashConsensus × Nat) := do
  if varIndex < variantsLength then
    let variant := c.reportVariants varIndex
    let support ← checkedAdd 64 variant.support 1
    return ({ c with
      reportVariants := Function.update c.reportVariants varIndex
        { variant with support := support } }, support)
  else do
    let variantsLength ← checkedAdd 256 variantsLength 1
    return ({ c with
      reportVariants := Function.update c.reportVariants varIndex { hash := report, support := 1 }
      reportVariantsLength := variantsLength }, 1)

end HashConsensus

namespace ConsensusSystem

variable (s : ConsensusSystem)

/-- The attached report processor. -/
def processor : BaseOracle := s.processors s.consensus.reportProcessor

/-- `_getLastProcessingRefSlot` -/
def lastProcessingRefSlot : Nat := s.processor.lastProcessingRefSlot

/-- The environment of a call that `HashConsensus` itself makes. -/
def nested (env : Env) : Env := { env with sender := s.self, value := 0 }

/-! ## Report processing -/

/-- `_submitReportForProcessing` -/
def submitReportForProcessing (env : Env) (frame : ConsensusFrame) (report : Hash) :
    Call OracleError ConsensusSystem := do
  let deadline ←
    HashConsensus.computeTimestampAtSlot s.consensus.chain frame.reportProcessingDeadlineSlot
  let p ← s.processor.submitConsensusReport (s.nested env) report frame.refSlot deadline
  return { s with
    processors := Function.update s.processors s.consensus.reportProcessor p
    submissions := s.submissions ++ [{
      processor := s.consensus.reportProcessor
      report := report
      refSlot := frame.refSlot
      quorum := s.consensus.quorum
      supporters := s.consensus.supporters frame.refSlot report }] }

/-- `_cancelReportProcessing` -/
def cancelReportProcessing (env : Env) (frame : ConsensusFrame) :
    Call OracleError ConsensusSystem := do
  let p ← s.processor.discardConsensusReport (s.nested env) frame.refSlot
  return { s with processors := Function.update s.processors s.consensus.reportProcessor p }

/-! ## Consensus -/

/-- `_consensusReached` -/
def consensusReached (env : Env) (frame : ConsensusFrame) (report : Hash) (variantIndex : Nat) :
    Call OracleError ConsensusSystem := do
  if s.consensus.reportingState.lastConsensusRefSlot ≠ frame.refSlot ∨
      s.consensus.reportingState.lastConsensusVariantIndex ≠ variantIndex then
    let s : ConsensusSystem := { s with
      consensus := { s.consensus with
        reportingState := { s.consensus.reportingState with
          lastConsensusRefSlot := frame.refSlot % 2 ^ 64
          lastConsensusVariantIndex := variantIndex % 2 ^ 64 } } }
    s.submitReportForProcessing env frame report
  else return s

/-- `_consensusNotReached` -/
def consensusNotReached (env : Env) (frame : ConsensusFrame) :
    Call OracleError ConsensusSystem := do
  if s.consensus.reportingState.lastConsensusRefSlot = frame.refSlot then
    let s : ConsensusSystem := { s with
      consensus := { s.consensus with
        reportingState := { s.consensus.reportingState with lastConsensusRefSlot := 0 } } }
    s.cancelReportProcessing env frame
  else return s

/-- `_checkConsensus` -/
def checkConsensus (env : Env) (quorum : Nat) : Call OracleError ConsensusSystem := do
  let frame ← s.consensus.getCurrentFrame env
  let slot ← HashConsensus.computeSlotAtTimestamp s.consensus.chain env.timestamp
  if frame.reportProcessingDeadlineSlot < slot then return s
  else if frame.refSlot ≤ s.lastProcessingRefSlot then return s
  else
    match s.consensus.getConsensusReport frame.refSlot quorum with
    | (consensusReport, some consensusVariantIndex, _) =>
      s.consensusReached env frame consensusReport consensusVariantIndex
    | (_, none, _) => s.consensusNotReached env frame

/-- The role that changing the quorum to a value needs. -/
def quorumRole (quorum : Nat) : ConsensusRole :=
  if quorum = UNREACHABLE_QUORUM then .disableConsensus else .manageMembersAndQuorum

/-- `_setQuorumAndCheckConsensus` -/
def setQuorumAndCheckConsensus (env : Env) (quorum totalMembers : Nat) :
    Call OracleError ConsensusSystem := do
  require (totalMembers / 2 < quorum) (.quorumTooSmall (totalMembers / 2 + 1) quorum)
  require (quorum ≠ s.consensus.quorum →
      s.consensus.hasRole (quorumRole quorum) env.sender = true)
    (.missingRole (quorumRole quorum) env.sender)
  let s : ConsensusSystem := { s with consensus := { s.consensus with quorum := quorum } }
  let epoch ← HashConsensus.computeEpochAtTimestamp s.consensus.chain env.timestamp
  if s.consensus.frameConfig.initialEpoch ≤ epoch then s.checkConsensus env quorum
  else return s

def setQuorum (env : Env) (quorum : Nat) : Call OracleError ConsensusSystem :=
  s.setQuorumAndCheckConsensus env quorum s.consensus.memberStates.length

/-- Disables the oracle by setting the quorum to an unreachable value. -/
def disableConsensus (env : Env) : Call OracleError ConsensusSystem :=
  s.setQuorumAndCheckConsensus env UNREACHABLE_QUORUM s.consensus.memberStates.length

/-- `addMember` -/
def addMember (env : Env) (addr : Address) (quorum : Nat) : Call OracleError ConsensusSystem := do
  let c := s.consensus
  require (c.hasRole .manageMembersAndQuorum env.sender = true)
    (.missingRole .manageMembersAndQuorum env.sender)
  require (c.isMember addr = false) .duplicateMember
  require (addr ≠ 0) .addressCannotBeZero
  let memberStates := c.memberStates ++ [{ lastReportRefSlot := 0, lastReportVariantIndex := 0 }]
  let newTotalMembers := memberStates.length
  let s : ConsensusSystem := { s with
    consensus := { c with
      memberStates := memberStates
      memberAddresses := c.memberAddresses ++ [addr]
      memberIndices1b := Function.update c.memberIndices1b addr newTotalMembers } }
  s.setQuorumAndCheckConsensus env quorum newTotalMembers

/-- Whether a removed member has to be taken out of the support of its report. -/
def cancelMemberReport (env : Env) (memberState : MemberState) :
    Call OracleError ConsensusSystem := do
  if 0 < memberState.lastReportRefSlot then
    let frame ← s.consensus.getCurrentFrame env
    if memberState.lastReportRefSlot = frame.refSlot ∧ s.lastProcessingRefSlot < frame.refSlot then
      let variant := s.consensus.reportVariants memberState.lastReportVariantIndex
      let support ← checkedSub variant.support 1
      return { s with
        consensus := { s.consensus with
          reportVariants := Function.update s.consensus.reportVariants
            memberState.lastReportVariantIndex { variant with support := support } } }
    else return s
  else return s

/-- `removeMember` -/
def removeMember (env : Env) (addr : Address) (quorum : Nat) :
    Call OracleError ConsensusSystem := do
  let c := s.consensus
  require (c.hasRole .manageMembersAndQuorum env.sender = true)
    (.missingRole .manageMembersAndQuorum env.sender)
  let index ← c.getMemberIndex addr
  let newTotalMembers ← checkedSub c.memberStates.length 1
  ensure (index ≤ newTotalMembers)
  let memberState ← getIndex c.memberStates index
  let c ← c.moveLastMember index newTotalMembers
  let s : ConsensusSystem := { s with
    consensus := { c with
      memberStates := c.memberStates.dropLast
      memberAddresses := c.memberAddresses.dropLast
      memberIndices1b := Function.update c.memberIndices1b addr 0 } }
  let s ← s.cancelMemberReport env memberState
  s.setQuorumAndCheckConsensus env quorum newTotalMembers

/-! ## Reports -/

/-- `_submitReport` -/
def submitReport (env : Env) (slot : Nat) (report : Hash) (consensusVersion : Nat) :
    Call OracleError ConsensusSystem := do
  let c := s.consensus
  require (slot ≠ 0) .invalidSlot
  require (slot < 2 ^ 64) .numericOverflow
  require (report ≠ ZERO_HASH) .emptyReport
  let memberIndex ← c.getMemberIndex env.sender
  let memberState ← getIndex c.memberStates memberIndex
  let expectedConsensusVersion := s.processor.consensusVersion
  require (consensusVersion = expectedConsensusVersion)
    (.unexpectedConsensusVersion expectedConsensusVersion consensusVersion)
  let currentSlot ← HashConsensus.computeSlotAtTimestamp c.chain env.timestamp
  let frame ← c.getCurrentFrame env
  require (slot = frame.refSlot) .invalidSlot
  require (currentSlot ≤ frame.reportProcessingDeadlineSlot) .staleReport
  c.requireFastLane currentSlot memberIndex frame
  if slot ≤ s.lastProcessingRefSlot then do
    -- consensus for the slot was already reached and its report is processing
    require (slot ≠ memberState.lastReportRefSlot) .consensusReportAlreadyProcessing
    return s
  else do
    let variantsLength :=
      if c.reportingState.lastReportRefSlot ≠ slot then 0 else c.reportVariantsLength
    let c : HashConsensus := { c with
      reportingState := { c.reportingState with lastReportRefSlot := slot } }
    let varIndex ← c.findVariant report variantsLength 0
    let (c, prevConsensusLost) ← c.withdrawReport memberState slot variantsLength varIndex
    let (c, support) ← c.countReport report variantsLength varIndex
    let memberStates ← setIndex c.memberStates memberIndex
      { lastReportRefSlot := slot, lastReportVariantIndex := varIndex }
    let s : ConsensusSystem := { s with consensus := { c with memberStates := memberStates } }
    if c.quorum ≤ support then s.consensusReached env frame report varIndex
    else if prevConsensusLost = true then s.consensusNotReached env frame
    else return s

/-! ## Configuration -/

/-- `setFrameConfig` -/
def setFrameConfig (env : Env) (epochsPerFrame fastLaneLengthSlots : Nat) :
    Call OracleError ConsensusSystem := do
  let c ← s.consensus.setFrameConfig env epochsPerFrame fastLaneLengthSlots
  return { s with consensus := c }

/-- `setFastLaneLengthSlots` -/
def setFastLaneLengthSlots (env : Env) (fastLaneLengthSlots : Nat) :
    Call OracleError ConsensusSystem := do
  let c ← s.consensus.setFastLaneLengthSlots env fastLaneLengthSlots
  return { s with consensus := c }

/-- `updateInitialEpoch` -/
def updateInitialEpoch (env : Env) (initialEpoch : Nat) : Call OracleError ConsensusSystem := do
  let c := s.consensus
  require (c.hasRole .defaultAdmin env.sender = true) (.missingRole .defaultAdmin env.sender)
  let prevConfig := c.frameConfig
  let epoch ← HashConsensus.computeEpochAtTimestamp c.chain env.timestamp
  require (epoch < prevConfig.initialEpoch) .initialEpochAlreadyArrived
  let c ← c.setFrameConfigInternal initialEpoch prevConfig.epochsPerFrame
    prevConfig.fastLaneLengthSlots
  let initialFrame ← c.getInitialFrame
  require (s.lastProcessingRefSlot ≤ initialFrame.refSlot)
    .initialEpochRefSlotCannotBeEarlierThanProcessingSlot
  return { s with consensus := c }

/-- `setReportProcessor` -/
def setReportProcessor (env : Env) (newProcessor : Address) : Call OracleError ConsensusSystem := do
  let c := s.consensus
  require (c.hasRole .manageReportProcessor env.sender = true)
    (.missingRole .manageReportProcessor env.sender)
  let prevProcessor := c.reportProcessor
  require (newProcessor ≠ 0) .reportProcessorCannotBeZero
  require (newProcessor ≠ prevProcessor) .newProcessorCannotBeTheSame
  let s : ConsensusSystem := { s with consensus := { c with reportProcessor := newProcessor } }
  let frame ← s.consensus.getCurrentFrame env
  let lastConsensusRefSlot := s.consensus.reportingState.lastConsensusRefSlot
  let processingRefSlotPrev := (s.processors prevProcessor).lastProcessingRefSlot
  let processingRefSlotNext := (s.processors newProcessor).lastProcessingRefSlot
  if processingRefSlotPrev < frame.refSlot ∧ processingRefSlotNext < frame.refSlot ∧
      lastConsensusRefSlot = frame.refSlot then
    let report :=
      (s.consensus.reportVariants s.consensus.reportingState.lastConsensusVariantIndex).hash
    s.submitReportForProcessing env frame report
  else return s

/-- `getConsensusState`: the current reference slot, the consensus report for it, and whether the
report is processing already. -/
def getConsensusState (env : Env) : Call OracleError (Nat × Hash × Bool) := do
  let frame ← s.consensus.getCurrentFrame env
  let (consensusReport, _, _) := s.consensus.getConsensusReport frame.refSlot s.consensus.quorum
  return (frame.refSlot, consensusReport, s.lastProcessingRefSlot = frame.refSlot)

end ConsensusSystem

end Catalist
