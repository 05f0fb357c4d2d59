import Catalist.Oracle.FrameRuns

/-!
# The legacy oracle

`LegacyOracle.sol`: a stub at the address of the former oracle, which answers the current frame in
the former terms. It takes the reference slot from the consensus contract, but computes the end of
the frame with the frame length that it stored when it was initialized. So the end is right as long
as that length is still the one of the consensus contract (`agrees_iff`).

The consensus contract that the accounting oracle names is a parameter. What the stub tells about
past reports, and its upgrade from the former oracle, are left out.
-/

namespace Catalist

open Solidity Transition

structure ChainSpec where
  epochsPerFrame : BitVec 64
  slotsPerEpoch : BitVec 64
  secondsPerSlot : BitVec 64
  genesisTime : BitVec 64
deriving DecidableEq, Repr

inductive LegacyError where
  | initAlreadyInitialized
  | unexpectedContractVersion
  | wrongBaseVersion
  | zeroLocatorAddress
  | zeroAccountingOracleAddress
  | badSlotsPerEpoch
  | badSecondsPerSlot
  | badGenesisTime
  | badEpochsPerFrame
  | consensus (e : OracleError)
deriving DecidableEq, Repr

structure LegacyOracle where
  initializationBlock : Nat
  contractVersion : Nat
  contractVersionDeprecated : Nat
  catalist : Address
  accountingOracle : Address
  /-- the word at `BEACON_SPEC_POSITION` -/
  beaconSpec : BitVec 256
deriving DecidableEq, Repr

namespace HashConsensus

/-- `getChainConfig`: slots of an epoch, seconds of a slot, and the time of genesis. -/
def getChainConfig (c : HashConsensus) : Nat × Nat × Nat :=
  (c.chain.slotsPerEpoch, c.chain.secondsPerSlot, c.chain.genesisTime)

/-- `getFrameConfig`, as far as the interface of the stub knows it -/
def getFrameConfig (c : HashConsensus) : Nat × Nat :=
  (c.frameConfig.initialEpoch, c.frameConfig.epochsPerFrame)

end HashConsensus

namespace LegacyOracle

variable (s : LegacyOracle) (consensus : HashConsensus)

/-! ## The chain specification -/

/-- `_getChainSpec` -/
def getChainSpec : ChainSpec where
  epochsPerFrame := (s.beaconSpec >>> 192).setWidth 64
  slotsPerEpoch := (s.beaconSpec >>> 128).setWidth 64
  secondsPerSlot := (s.beaconSpec >>> 64).setWidth 64
  genesisTime := s.beaconSpec.setWidth 64

/-- `_setChainSpec` -/
def setChainSpec (spec : ChainSpec) : Call LegacyError LegacyOracle := do
  require (0 < spec.slotsPerEpoch) .badSlotsPerEpoch
  require (0 < spec.secondsPerSlot) .badSecondsPerSlot
  require (0 < spec.genesisTime) .badGenesisTime
  require (0 < spec.epochsPerFrame) .badEpochsPerFrame
  return { s with
    beaconSpec := spec.epochsPerFrame.setWidth 256 <<< 192 |||
      spec.slotsPerEpoch.setWidth 256 <<< 128 ||| spec.secondsPerSlot.setWidth 256 <<< 64 |||
      spec.genesisTime.setWidth 256 }

/-- `_getAccountingOracleChainSpec`; the casts to 64 bits are not checked. -/
def getAccountingOracleChainSpec : ChainSpec :=
  let (slotsPerEpoch, secondsPerSlot, genesisTime) := consensus.getChainConfig
  let (_, epochsPerFrame) := consensus.getFrameConfig
  { epochsPerFrame := BitVec.ofNat 64 epochsPerFrame
    slotsPerEpoch := BitVec.ofNat 64 slotsPerEpoch
    secondsPerSlot := BitVec.ofNat 64 secondsPerSlot
    genesisTime := BitVec.ofNat 64 genesisTime }

/-! ## Initialization -/

/-- `_initialize_v4` -/
def initializeV4 (accountingOracle : Address) : Call LegacyError LegacyOracle := do
  require (accountingOracle ≠ 0) .zeroAccountingOracleAddress
  return { s with
    accountingOracle := accountingOracle
    contractVersion := 4
    contractVersionDeprecated := 0 }

/-- `initialize`; the locator answers `catalist` and `accountingOracle`. -/
def initializeLegacyOracle (blockNumber : Nat) (catalistLocator catalist accountingOracle : Address) :
    Call LegacyError LegacyOracle := do
  require (s.initializationBlock = 0) .initAlreadyInitialized
  require (s.contractVersion = 0) .unexpectedContractVersion
  require (s.contractVersionDeprecated = 0) .wrongBaseVersion
  require (catalistLocator ≠ 0) .zeroLocatorAddress
  let s := { s with catalist := catalist }
  let s ← s.initializeV4 accountingOracle
  let s ← s.setChainSpec (getAccountingOracleChainSpec consensus)
  return { s with initializationBlock := blockNumber }

/-! ## The compatibility interface -/

/-- `getBeaconSpec` -/
def getBeaconSpec : ChainSpec :=
  let (_, epochsPerFrame) := consensus.getFrameConfig
  { s.getChainSpec with epochsPerFrame := BitVec.ofNat 64 epochsPerFrame }

/--
`getCurrentFrame`, which is `_getCurrentFrameFromAccountingOracle`: the first epoch of the frame,
and the times at which it starts and ends. The arithmetic wraps around; the length of the frame is a
product in 64 bits.
-/
def getCurrentFrame (env : Env) : Call LegacyError (Nat × Nat × Nat) := do
  let spec := s.getChainSpec
  let frame ← within .consensus (consensus.getCurrentFrame env)
  let refSlot := BitVec.ofNat 256 frame.refSlot
  let frameStartTime := spec.genesisTime.setWidth 256 +
    (refSlot + 1) * spec.secondsPerSlot.setWidth 256
  let frameEndTime := frameStartTime +
    (spec.secondsPerSlot * spec.slotsPerEpoch * spec.epochsPerFrame).setWidth 256 - 1
  let frameEpochId ← checkedDiv (refSlot + 1).toNat spec.slotsPerEpoch.toNat
  return (frameEpochId, frameStartTime.toNat, frameEndTime.toNat)

variable {s consensus} {s' : LegacyOracle} {spec : ChainSpec}

/-! ## What is stored -/

theorem setWidth_ushiftRight_packed {a b c d : BitVec 64} {w : BitVec 256}
    (hw : w = a.setWidth 256 <<< 192 ||| b.setWidth 256 <<< 128 ||| c.setWidth 256 <<< 64 |||
      d.setWidth 256) :
    (w >>> 192).setWidth 64 = a ∧ (w >>> 128).setWidth 64 = b ∧ (w >>> 64).setWidth 64 = c ∧
      w.setWidth 64 = d := by
  subst hw
  refine ⟨?_, ?_, ?_, ?_⟩
  all_goals
    ext i hi
    simp only [BitVec.getElem_setWidth, BitVec.getLsbD_ushiftRight, BitVec.getLsbD_or,
      BitVec.getLsbD_shiftLeft, BitVec.getLsbD_setWidth]
    grind

/-- The packed specification reads back. -/
theorem getChainSpec_setChainSpec (h : s.setChainSpec spec = .ok s') :
    s'.getChainSpec = spec ∧ 0 < spec.genesisTime := by
  simp only [setChainSpec, bind_eq_ok, require_eq_ok, pure_eq_ok] at h
  obtain ⟨_, -, _, -, _, hgenesis, _, -, rfl⟩ := h
  obtain ⟨hepochs, hslots, hseconds, htime⟩ := setWidth_ushiftRight_packed (w := _) rfl
  refine ⟨?_, hgenesis⟩
  unfold getChainSpec
  rw [hepochs, hslots, hseconds, htime]

/-- The specification of a chain, with a number of epochs for a frame. -/
structure Describes (spec : ChainSpec) (chain : ChainConfig) (epochsPerFrame : Nat) : Prop where
  epochsPerFrame : spec.epochsPerFrame.toNat = epochsPerFrame
  slotsPerEpoch : spec.slotsPerEpoch.toNat = chain.slotsPerEpoch
  secondsPerSlot : spec.secondsPerSlot.toNat = chain.secondsPerSlot
  genesisTime : spec.genesisTime.toNat = chain.genesisTime
  genesisTime_pos : 0 < chain.genesisTime

/-- The immutables and the frame length of the consensus contract are stored in 64 bits each. -/
structure Uint64Fields (c : HashConsensus) : Prop where
  epochsPerFrame : c.frameConfig.epochsPerFrame < 2 ^ 64
  slotsPerEpoch : c.chain.slotsPerEpoch < 2 ^ 64
  secondsPerSlot : c.chain.secondsPerSlot < 2 ^ 64
  genesisTime : c.chain.genesisTime < 2 ^ 64

/-- The frame length is the one of the moment of the initialization. -/
theorem describes_of_init (h64 : Uint64Fields consensus) {blockNumber : Nat}
    {catalistLocator catalist accountingOracle : Address}
    (h : s.initializeLegacyOracle consensus blockNumber catalistLocator catalist accountingOracle
      = .ok s') :
    Describes s'.getChainSpec consensus.chain consensus.frameConfig.epochsPerFrame := by
  simp only [initializeLegacyOracle, bind_eq_ok, pure_eq_ok] at h
  obtain ⟨_, -, _, -, _, -, _, -, s₁, -, s₂, hset, rfl⟩ := h
  obtain ⟨hspec, hgenesis⟩ := getChainSpec_setChainSpec hset
  have hfields : s₂.getChainSpec = getAccountingOracleChainSpec consensus := hspec
  have hpos : 0 < (BitVec.ofNat 64 consensus.chain.genesisTime).toNat := hgenesis
  rw [BitVec.toNat_ofNat, Nat.mod_eq_of_lt h64.genesisTime] at hpos
  change Describes s₂.getChainSpec _ _
  rw [hfields]
  exact ⟨BitVec.toNat_ofNat _ _ |>.trans (Nat.mod_eq_of_lt h64.epochsPerFrame),
    BitVec.toNat_ofNat _ _ |>.trans (Nat.mod_eq_of_lt h64.slotsPerEpoch),
    BitVec.toNat_ofNat _ _ |>.trans (Nat.mod_eq_of_lt h64.secondsPerSlot),
    BitVec.toNat_ofNat _ _ |>.trans (Nat.mod_eq_of_lt h64.genesisTime), hpos⟩

/-- `getBeaconSpec` reads the frame length from the consensus contract instead. -/
theorem describes_getBeaconSpec {epochsPerFrame : Nat}
    (h : Describes s.getChainSpec consensus.chain epochsPerFrame) :
    Describes (s.getBeaconSpec consensus) consensus.chain
      (consensus.frameConfig.epochsPerFrame % 2 ^ 64) :=
  { h with epochsPerFrame := BitVec.toNat_ofNat _ _ }

/-! ## The frame -/

variable {env : Env} {frame : ConsensusFrame} {epochsPerFrame : Nat}

/-- The time after a slot of 64 bits is far from wrapping around. -/
theorem Describes.time_le {chain : ChainConfig} (h : Describes spec chain epochsPerFrame) {slot : Nat}
    (hslot : slot < 2 ^ 64) :
    chain.genesisTime + (slot + 1) * chain.secondsPerSlot ≤ 2 ^ 129 := by
  have hgenesis := spec.genesisTime.isLt
  have hseconds := spec.secondsPerSlot.isLt
  rw [h.genesisTime] at hgenesis
  rw [h.secondsPerSlot] at hseconds
  have hmul : (slot + 1) * chain.secondsPerSlot ≤ 2 ^ 64 * 2 ^ 64 :=
    Nat.mul_le_mul hslot hseconds.le
  omega

theorem toNat_frameStartTime {chain : ChainConfig} (h : Describes spec chain epochsPerFrame)
    {slot : Nat} (hslot : slot < 2 ^ 64) :
    (spec.genesisTime.setWidth 256 +
        (BitVec.ofNat 256 slot + 1) * spec.secondsPerSlot.setWidth 256).toNat
      = chain.genesisTime + (slot + 1) * chain.secondsPerSlot := by
  have hle := h.time_le hslot
  have hnext : (BitVec.ofNat 256 slot + 1).toNat = slot + 1 := by bv_omega
  rw [BitVec.toNat_add, BitVec.toNat_mul, hnext, BitVec.toNat_setWidth_of_le (by decide),
    BitVec.toNat_setWidth_of_le (by decide), h.genesisTime, h.secondsPerSlot,
    Nat.mod_eq_of_lt (a := (slot + 1) * chain.secondsPerSlot) (by omega),
    Nat.mod_eq_of_lt (by omega)]

theorem toNat_frameEndTime {frameStartTime : BitVec 256} {length : BitVec 64}
    (hpos : 0 < frameStartTime.toNat) (hle : frameStartTime.toNat ≤ 2 ^ 255) :
    (frameStartTime + length.setWidth 256 - 1).toNat
      = frameStartTime.toNat + length.toNat - 1 := by
  have hlength := length.isLt
  have hwidth : (length.setWidth 256).toNat = length.toNat :=
    BitVec.toNat_setWidth_of_le (by decide)
  bv_omega

/-- The answer of the stub, without the wrapping of words. -/
theorem getCurrentFrame_of (h : Describes s.getChainSpec consensus.chain epochsPerFrame)
    (hframe : consensus.getCurrentFrame env = .ok frame) :
    s.getCurrentFrame consensus env = .ok ((frame.refSlot + 1) / consensus.chain.slotsPerEpoch,
      consensus.chain.genesisTime + (frame.refSlot + 1) * consensus.chain.secondsPerSlot,
      consensus.chain.genesisTime + (frame.refSlot + 1) * consensus.chain.secondsPerSlot +
        consensus.chain.secondsPerSlot * consensus.chain.slotsPerEpoch * epochsPerFrame % 2 ^ 64
        - 1) := by
  obtain ⟨-, -, -, hrefSlot, -⟩ := HashConsensus.getFrameAtTimestamp_ok_cases hframe
  have hslot : frame.refSlot < 2 ^ 64 := by omega
  have hnext : (BitVec.ofNat 256 frame.refSlot + 1).toNat = frame.refSlot + 1 := by bv_omega
  have hle := h.time_le hslot
  have hpos := h.genesisTime_pos
  have hstart := toNat_frameStartTime h hslot
  have hlength : (s.getChainSpec.secondsPerSlot * s.getChainSpec.slotsPerEpoch *
      s.getChainSpec.epochsPerFrame).toNat
      = consensus.chain.secondsPerSlot * consensus.chain.slotsPerEpoch * epochsPerFrame
        % 2 ^ 64 := by
    rw [BitVec.toNat_mul, BitVec.toNat_mul, h.secondsPerSlot, h.slotsPerEpoch, h.epochsPerFrame,
      Nat.mod_mul_mod]
  have hend := @toNat_frameEndTime _ (s.getChainSpec.secondsPerSlot * s.getChainSpec.slotsPerEpoch *
    s.getChainSpec.epochsPerFrame) (by rw [hstart]; omega) (by rw [hstart]; omega)
  unfold getCurrentFrame
  rw [hframe, within_ok, ok_bind]
  simp only
  rw [hend, hstart, hlength, hnext, h.slotsPerEpoch,
    checkedDiv_of consensus.chain.slotsPerEpoch_pos.ne']
  rfl

/-- The frame of the stub is that of the consensus contract: both times are those of its slots. -/
def Agrees (s : LegacyOracle) (consensus : HashConsensus) (env : Env) (frame : ConsensusFrame) :
    Prop :=
  ∃ frameEpochId frameStartTime frameEndTime,
    s.getCurrentFrame consensus env = .ok (frameEpochId, frameStartTime, frameEndTime) ∧
    HashConsensus.computeTimestampAtSlot consensus.chain (frame.refSlot + 1)
      = .ok frameStartTime ∧
    HashConsensus.computeTimestampAtSlot consensus.chain (frame.reportProcessingDeadlineSlot + 1)
      = .ok (frameEndTime + 1)

/-- The length of the current frame is the stored one, and its slots have the same high bits. -/
structure LengthKept (epochsPerFrame : Nat) (consensus : HashConsensus) (timestamp : Nat) : Prop where
  seconds : consensus.chain.secondsPerSlot * consensus.chain.slotsPerEpoch * epochsPerFrame % 2 ^ 64
    = consensus.chain.secondsPerSlot *
      (consensus.frameConfig.epochsPerFrame * consensus.chain.slotsPerEpoch)
  highBits : HashConsensus.refSlotAt consensus.chain consensus.frameConfig timestamp / 2 ^ 64
    = HashConsensus.deadlineSlotAt consensus.chain consensus.frameConfig timestamp / 2 ^ 64

/-- A slot and a later one, both truncated, are `length` slots apart if their high bits are equal. -/
theorem truncated_apart_iff {slot length secondsPerSlot seconds : Nat} (hlength : length < 2 ^ 64)
    (hpos : 0 < secondsPerSlot) :
    seconds + slot % 2 ^ 64 * secondsPerSlot = (slot + length) % 2 ^ 64 * secondsPerSlot ↔
      seconds = secondsPerSlot * length ∧ slot / 2 ^ 64 = (slot + length) / 2 ^ 64 := by
  by_cases hbits : slot / 2 ^ 64 = (slot + length) / 2 ^ 64
  · have hlater : (slot + length) % 2 ^ 64 = length + slot % 2 ^ 64 := by omega
    rw [hlater, Nat.add_mul, Nat.add_right_cancel_iff, Nat.mul_comm length]
    exact (and_iff_left hbits).symm
  · refine iff_of_false (fun heq => ?_) fun h => hbits h.2
    -- the later slot has wrapped around, and is before the earlier one
    have hless : (slot + length) % 2 ^ 64 < slot % 2 ^ 64 := by omega
    have hmul := Nat.mul_lt_mul_of_pos_right hless hpos
    omega

theorem computeTimestampAtSlot_of (h : Describes spec consensus.chain epochsPerFrame)
    {slot : Nat} (hslot : slot < 2 ^ 64) :
    HashConsensus.computeTimestampAtSlot consensus.chain (slot + 1)
      = .ok (consensus.chain.genesisTime + (slot + 1) * consensus.chain.secondsPerSlot) := by
  have hle := h.time_le hslot
  unfold HashConsensus.computeTimestampAtSlot
  rw [checkedMul_of (by omega), ok_bind, checkedAdd_of (by omega)]

/-- **The end of the frame is right** exactly if the frame still has the stored length. -/
theorem agrees_iff (h : Describes s.getChainSpec consensus.chain epochsPerFrame)
    (hframe : consensus.getCurrentFrame env = .ok frame) :
    s.Agrees consensus env frame ↔ LengthKept epochsPerFrame consensus env.timestamp := by
  obtain ⟨-, -, -, hrefSlot, hdeadlineSlot⟩ := HashConsensus.getFrameAtTimestamp_ok_cases hframe
  obtain ⟨hstart, hlength⟩ := HashConsensus.getFrameAtTimestamp_bounds hframe
  have hdeadline : HashConsensus.deadlineSlotAt consensus.chain consensus.frameConfig env.timestamp
      = HashConsensus.refSlotAt consensus.chain consensus.frameConfig env.timestamp
        + consensus.frameConfig.epochsPerFrame * consensus.chain.slotsPerEpoch := by
    unfold HashConsensus.frameStartSlotAt at hstart
    unfold HashConsensus.deadlineSlotAt HashConsensus.refSlotAt
    omega
  have hpos := h.genesisTime_pos
  have hiff := @truncated_apart_iff
    (HashConsensus.refSlotAt consensus.chain consensus.frameConfig env.timestamp) _ _
    (consensus.chain.secondsPerSlot * consensus.chain.slotsPerEpoch * epochsPerFrame % 2 ^ 64)
    hlength consensus.chain.secondsPerSlot_pos
  rw [← hdeadline, ← hrefSlot, ← hdeadlineSlot] at hiff
  unfold Agrees
  rw [getCurrentFrame_of h hframe, computeTimestampAtSlot_of h (by omega),
    computeTimestampAtSlot_of h (by omega)]
  constructor
  · rintro ⟨_, _, _, hanswer, -, hend⟩
    simp only [Except.ok.injEq, Prod.mk.injEq] at hanswer hend
    obtain ⟨-, -, rfl⟩ := hanswer
    obtain ⟨hseconds, hbits⟩ := hiff.mp (by simp only [Nat.add_mul] at hend; omega)
    exact ⟨hseconds, hbits⟩
  · intro hkept
    have hapart := hiff.mpr ⟨hkept.seconds, hkept.highBits⟩
    refine ⟨_, _, _, rfl, rfl, congrArg Except.ok ?_⟩
    simp only [Nat.add_mul]
    omega

/-- The length is kept where its product fits 64 bits and the number of epochs is unchanged. -/
theorem lengthKept_of {timestamp : Nat}
    (hepochs : consensus.frameConfig.epochsPerFrame = epochsPerFrame)
    (hlength : consensus.chain.secondsPerSlot * consensus.chain.slotsPerEpoch * epochsPerFrame
      < 2 ^ 64)
    (hfit : HashConsensus.deadlineSlotAt consensus.chain consensus.frameConfig timestamp < 2 ^ 64) :
    LengthKept epochsPerFrame consensus timestamp := by
  have hle : HashConsensus.refSlotAt consensus.chain consensus.frameConfig timestamp
      ≤ HashConsensus.deadlineSlotAt consensus.chain consensus.frameConfig timestamp :=
    HashConsensus.refSlotAt_le_deadlineSlotAt
  refine ⟨?_, by omega⟩
  rw [Nat.mod_eq_of_lt hlength, hepochs, Nat.mul_comm epochsPerFrame, Nat.mul_assoc]

/-! ## Runs -/

open HashConsensus ConsensusSystem

variable {x y : ConsensusSystem × Nat}

/-- The number of epochs of a frame is still the stored one, and the slots of the frame fit. -/
def EpochsKept (epochsPerFrame : Nat) (consensus : HashConsensus) (timestamp : Nat) : Prop :=
  consensus.frameConfig.epochsPerFrame = epochsPerFrame ∧ consensus.SlotsFit timestamp

theorem epochsKept_of_run (hx : EpochsKept epochsPerFrame x.1.consensus x.2)
    (hrun : Reachable (· = x) (FrameStep (EpochsKept epochsPerFrame)) y) :
    EpochsKept epochsPerFrame y.1.consensus y.2 := by
  induction hrun with
  | init heq => exact heq ▸ hx
  | step _ hstep ih =>
    cases hstep with
    | clock hclock => exact hclock.guard
    | other hchain hconfig => simpa only [EpochsKept, SlotsFit, hchain, hconfig] using ih

/-- After the initialization, the stub describes the chain in every run. -/
theorem describes_of_run (h64 : Uint64Fields x.1.consensus) {blockNumber : Nat}
    {catalistLocator catalist accountingOracle : Address}
    (hinit : s.initializeLegacyOracle x.1.consensus blockNumber catalistLocator catalist
      accountingOracle = .ok s')
    {Guard : HashConsensus → Nat → Prop} (hrun : Reachable (· = x) (FrameStep Guard) y) :
    Describes s'.getChainSpec y.1.consensus.chain x.1.consensus.frameConfig.epochsPerFrame := by
  rw [chain_of_run hrun]
  exact describes_of_init h64 hinit

/-- **The frame length that `getBeaconSpec` answers** is the current one in every run. -/
theorem getBeaconSpec_of_run (h64 : Uint64Fields x.1.consensus) {blockNumber : Nat}
    {catalistLocator catalist accountingOracle : Address}
    (hinit : s.initializeLegacyOracle x.1.consensus blockNumber catalistLocator catalist
      accountingOracle = .ok s')
    {Guard : HashConsensus → Nat → Prop} (hrun : Reachable (· = x) (FrameStep Guard) y) :
    Describes (s'.getBeaconSpec y.1.consensus) y.1.consensus.chain
      (y.1.consensus.frameConfig.epochsPerFrame % 2 ^ 64) :=
  describes_getBeaconSpec (describes_of_run h64 hinit hrun)

/--
**The frame of the legacy oracle.** In every run after the initialization, the frame is that of the
consensus contract exactly if its length in seconds is the product that was stored and its slots do
not pass a multiple of `2 ^ 64`. So it is in every run that keeps the number of epochs, where the
numbers fit 64 bits.
-/
theorem currentFrame_agrees_iff (h64 : Uint64Fields x.1.consensus) {blockNumber : Nat}
    {catalistLocator catalist accountingOracle : Address}
    (hinit : s.initializeLegacyOracle x.1.consensus blockNumber catalistLocator catalist
      accountingOracle = .ok s') :
    (∀ y env frame, Reachable (· = x) (FrameStep fun _ _ => True) y → env.timestamp = y.2 →
      y.1.consensus.getCurrentFrame env = .ok frame →
      (s'.Agrees y.1.consensus env frame ↔
        LengthKept x.1.consensus.frameConfig.epochsPerFrame y.1.consensus y.2)) ∧
    (x.1.consensus.SlotsFit x.2 →
      x.1.consensus.chain.secondsPerSlot * x.1.consensus.chain.slotsPerEpoch *
        x.1.consensus.frameConfig.epochsPerFrame < 2 ^ 64 →
      ∀ y env frame,
        Reachable (· = x) (FrameStep (EpochsKept x.1.consensus.frameConfig.epochsPerFrame)) y →
        env.timestamp = y.2 → y.1.consensus.getCurrentFrame env = .ok frame →
        s'.Agrees y.1.consensus env frame) := by
  refine ⟨?_, ?_⟩
  · intro y env frame hrun htime hframe
    rw [← htime]
    exact agrees_iff (describes_of_run h64 hinit hrun) hframe
  · intro hfit hlength y env frame hrun htime hframe
    obtain ⟨hepochs, hslots⟩ := epochsKept_of_run ⟨rfl, hfit⟩ hrun
    obtain ⟨harrived, -⟩ := getFrameAtTimestamp_ok_cases hframe
    refine (agrees_iff (describes_of_run h64 hinit hrun) hframe).mpr (lengthKept_of hepochs ?_ ?_)
    · rw [chain_of_run hrun]
      exact hlength
    · rw [htime] at harrived ⊢
      exact hslots harrived

/-! The chain begins at time 1, and the frame length is one epoch first and three epochs later. -/

def exampleLateDeployment : ConsensusSystem where
  self := 9
  consensus := result (HashConsensus.deploy { exampleChain with genesisTime := 1 } 1 0 1 2)
    (by decide +kernel)
  processors := fun _ => BaseOracle.blank 12 1
  submissions := []

theorem isOk_exampleLateDeployment :
    (exampleLateDeployment.updateInitialEpoch (exampleEnv 1 1 Nat.one_pos) 1).isOk = true := by
  decide +kernel

/-- The first frame begins at time 385, and all accounts have all roles. -/
def exampleConsensus : ConsensusSystem :=
  let scheduled := result _ isOk_exampleLateDeployment
  { scheduled with consensus := { scheduled.consensus with hasRole := fun _ _ => true } }

theorem uint64Fields_exampleConsensus : Uint64Fields exampleConsensus.consensus :=
  ⟨by decide +kernel, by decide +kernel, by decide +kernel, by decide +kernel⟩

def exampleBlank : LegacyOracle := ⟨0, 0, 0, 0, 0, 0⟩

def exampleLegacy : LegacyOracle :=
  result (exampleBlank.initializeLegacyOracle exampleConsensus.consensus 10 20 21 22)
    (by decide +kernel)

theorem exampleSecondFrameTime_pos : 0 < 769 := by decide

/-- In the second frame, the frame length is set to three epochs. -/
def exampleThreeEpochs : ConsensusSystem :=
  result (exampleConsensus.setFrameConfig (exampleEnv 1 769 exampleSecondFrameTime_pos) 3 0)
    (by decide +kernel)

theorem reachable_exampleThreeEpochs :
    Reachable (· = (exampleConsensus, 1)) (FrameStep fun _ _ => True) (exampleThreeEpochs, 769) := by
  have hstart : Reachable (· = (exampleConsensus, 1)) (FrameStep fun _ _ => True)
      (exampleConsensus, 1) := .init rfl
  have hlater := hstart.step (.clock (@ClockStep.tick _ _ _ 769 (by decide) trivial))
  exact hlater.step (.clock (.configure
    (@ConfigCall.setFrameConfig (exampleEnv 1 769 exampleSecondFrameTime_pos) exampleConsensus
      exampleThreeEpochs 3 0 (eq_ok_result _ _)) trivial))

/-- The frame from 769 to 1920 is answered with the end 1152. -/
theorem currentFrame_stale :
    exampleBlank.initializeLegacyOracle exampleConsensus.consensus 10 20 21 22 = .ok exampleLegacy ∧
    Reachable (· = (exampleConsensus, 1)) (FrameStep fun _ _ => True) (exampleThreeEpochs, 769) ∧
    exampleThreeEpochs.consensus.getCurrentFrame (exampleEnv 1 769 exampleSecondFrameTime_pos)
      = .ok ⟨0, 63, 159⟩ ∧
    exampleLegacy.getCurrentFrame exampleThreeEpochs.consensus
      (exampleEnv 1 769 exampleSecondFrameTime_pos) = .ok (2, 769, 1152) ∧
    computeTimestampAtSlot exampleThreeEpochs.consensus.chain 160 = .ok 1921 ∧
    ¬ exampleLegacy.Agrees exampleThreeEpochs.consensus
      (exampleEnv 1 769 exampleSecondFrameTime_pos) ⟨0, 63, 159⟩ := by
  have hanswer : exampleLegacy.getCurrentFrame exampleThreeEpochs.consensus
      (exampleEnv 1 769 exampleSecondFrameTime_pos) = .ok (2, 769, 1152) := by decide +kernel
  have hend : computeTimestampAtSlot exampleThreeEpochs.consensus.chain 160 = .ok 1921 := by
    decide +kernel
  refine ⟨eq_ok_result _ _, reachable_exampleThreeEpochs, by decide +kernel, hanswer, hend, ?_⟩
  rintro ⟨_, _, frameEndTime, hframe, -, htime⟩
  rw [hanswer] at hframe
  rw [hend] at htime
  simp only [Except.ok.injEq, Prod.mk.injEq] at hframe htime
  omega

/-- Before the change, both contracts answer the frame from 769 to 1152. -/
theorem currentFrame_agrees_iff_one_epoch :
    exampleLegacy.Agrees exampleConsensus.consensus (exampleEnv 1 769 exampleSecondFrameTime_pos)
      ⟨1, 63, 95⟩ := by
  have hinit := eq_ok_result
    (exampleBlank.initializeLegacyOracle exampleConsensus.consensus 10 20 21 22)
    (by decide +kernel)
  have hstart : Reachable (· = (exampleConsensus, 1))
      (FrameStep (EpochsKept exampleConsensus.consensus.frameConfig.epochsPerFrame))
      (exampleConsensus, 1) := .init rfl
  have hlater := hstart.step
    (.clock (@ClockStep.tick _ _ _ 769 (by decide) ⟨rfl, by decide +kernel⟩))
  exact (currentFrame_agrees_iff (x := (exampleConsensus, 1)) uint64Fields_exampleConsensus
    hinit).2 (by decide +kernel) (by decide +kernel) _ (exampleEnv 1 769 exampleSecondFrameTime_pos)
    ⟨1, 63, 95⟩ hlater rfl (by decide +kernel)

end LegacyOracle

end Catalist
