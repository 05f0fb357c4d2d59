import Catalist.Evm
import Catalist.Lib.Checked

/-!
# Oracle consensus: data and errors

The storage of `HashConsensus.sol` and `BaseOracle.sol`, and the errors of both. A call of
`HashConsensus` may call its report processor, so the two share one error type.
-/

namespace Catalist

/-- `bytes32` -/
abbrev Hash := BitVec 256

/-- Chain specification: the immutables of `HashConsensus`, checked by its constructor. -/
structure ChainConfig where
  slotsPerEpoch : Nat
  secondsPerSlot : Nat
  genesisTime : Nat
  slotsPerEpoch_pos : 0 < slotsPerEpoch
  secondsPerSlot_pos : 0 < secondsPerSlot

structure FrameConfig where
  initialEpoch : Nat
  epochsPerFrame : Nat
  fastLaneLengthSlots : Nat
deriving DecidableEq, Repr

structure ConsensusFrame where
  index : Nat
  /-- the slot at which to read the state around which consensus is being reached -/
  refSlot : Nat
  /-- the last slot at which a report can be reported and processed -/
  reportProcessingDeadlineSlot : Nat
deriving DecidableEq, Repr

structure ReportingState where
  /-- the last reference slot any report was received for -/
  lastReportRefSlot : Nat
  /-- the last reference slot a consensus was reached for -/
  lastConsensusRefSlot : Nat
  lastConsensusVariantIndex : Nat
deriving DecidableEq, Repr

structure MemberState where
  lastReportRefSlot : Nat
  lastReportVariantIndex : Nat
deriving DecidableEq, Repr

structure ReportVariant where
  hash : Hash
  support : Nat
deriving DecidableEq, Repr

/-- The roles that `HashConsensus` checks. -/
inductive ConsensusRole where
  | defaultAdmin
  | manageMembersAndQuorum
  | disableConsensus
  | manageFrameConfig
  | manageFastLaneConfig
  | manageReportProcessor
deriving DecidableEq, Repr

/-- The storage of `HashConsensus`. -/
structure HashConsensus where
  chain : ChainConfig
  frameConfig : FrameConfig
  memberStates : List MemberState
  memberAddresses : List Address
  memberIndices1b : Address → Nat
  reportingState : ReportingState
  quorum : Nat
  reportVariants : Nat → ReportVariant
  reportVariantsLength : Nat
  reportProcessor : Address
  hasRole : ConsensusRole → Address → Bool

structure ConsensusReport where
  hash : Hash
  refSlot : Nat
  processingDeadlineTime : Nat
deriving DecidableEq, Repr

/-- The storage of a report processor, `BaseOracle`. -/
structure BaseOracle where
  secondsPerSlot : Nat
  genesisTime : Nat
  contractVersion : Nat
  consensusContract : Address
  consensusVersion : Nat
  lastProcessingRefSlot : Nat
  consensusReport : ConsensusReport
deriving DecidableEq, Repr

inductive OracleError where
  -- HashConsensus
  | invalidChainConfig
  | numericOverflow
  | adminCannotBeZero
  | reportProcessorCannotBeZero
  | duplicateMember
  | addressCannotBeZero
  | initialEpochIsYetToArrive
  | initialEpochAlreadyArrived
  | initialEpochRefSlotCannotBeEarlierThanProcessingSlot
  | epochsPerFrameCannotBeZero
  | nonMember
  | unexpectedConsensusVersion (expected received : Nat)
  | quorumTooSmall (minQuorum receivedQuorum : Nat)
  | invalidSlot
  | duplicateReport
  | emptyReport
  | staleReport
  | nonFastLaneMemberCannotReportWithinFastLaneInterval
  | newProcessorCannotBeTheSame
  | consensusReportAlreadyProcessing
  | fastLanePeriodCannotBeLongerThanFrame
  | missingRole (role : ConsensusRole) (account : Address)
  | valueDoesNotFitIn64Bits
  -- BaseOracle
  | addressCannotBeSame
  | versionCannotBeSame
  | unexpectedChainConfig
  | senderIsNotTheConsensusContract
  | initialRefSlotCannotBeLessThanProcessingOne (initialRefSlot processingRefSlot : Nat)
  | refSlotMustBeGreaterThanProcessingOne (refSlot processingRefSlot : Nat)
  | refSlotCannotDecrease (refSlot prevRefSlot : Nat)
  | noConsensusReportToProcess
  | processingDeadlineMissed (deadline : Nat)
  | refSlotAlreadyProcessing
  | hashCannotBeZero
  | unexpectedRefSlot (consensusRefSlot dataRefSlot : Nat)
  | unexpectedDataHash (consensusHash receivedHash : Hash)
  | nonZeroContractVersionOnInit
  | unexpectedContractVersion (expected received : Nat)
deriving DecidableEq, Repr

/-- A quorum value that effectively disables the oracle. -/
def UNREACHABLE_QUORUM : Nat := 2 ^ 256 - 1

def ZERO_HASH : Hash := 0

def DEADLINE_SLOT_OFFSET : Nat := 0

open Solidity in
/-- `SafeCast.toUint64` -/
def toUint64 (value : Nat) : Call OracleError Nat := do
  require (value < 2 ^ 64) .valueDoesNotFitIn64Bits
  return value

end Catalist
