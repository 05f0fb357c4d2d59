import Catalist.Oracle.Base
import Mathlib.Algebra.Order.Ring.Nat

/-!
# Reporting frames

The time arithmetic of `HashConsensus`: slots, epochs and frames, as the contract computes them
(in 256 bits, except that a frame's length is a product of two 64-bit numbers and its slots are
truncated to 64 bits), and the same quantities as plain functions. Where the deadline slot of the
current frame fits 64 bits the two agree. `refSlotAt` never decreases: not when time passes, and
not when the frame configuration changes.
-/

namespace Catalist

open Solidity

namespace HashConsensus

/-! ## As computed by the contract -/

def computeSlotAtTimestamp (chain : ChainConfig) (timestamp : Nat) : Call OracleError Nat := do
  let elapsed ← checkedSub timestamp chain.genesisTime
  checkedDiv elapsed chain.secondsPerSlot

def computeEpochAtSlot (chain : ChainConfig) (slot : Nat) : Call OracleError Nat :=
  checkedDiv slot chain.slotsPerEpoch

def computeEpochAtTimestamp (chain : ChainConfig) (timestamp : Nat) : Call OracleError Nat := do
  let slot ← computeSlotAtTimestamp chain timestamp
  computeEpochAtSlot chain slot

def computeStartSlotAtEpoch (chain : ChainConfig) (epoch : Nat) : Call OracleError Nat :=
  checkedMul 256 epoch chain.slotsPerEpoch

def computeTimestampAtSlot (chain : ChainConfig) (slot : Nat) : Call OracleError Nat := do
  let elapsed ← checkedMul 256 slot chain.secondsPerSlot
  checkedAdd 256 chain.genesisTime elapsed

def computeFrameIndex (chain : ChainConfig) (timestamp : Nat) (config : FrameConfig) :
    Call OracleError Nat := do
  let epoch ← computeEpochAtTimestamp chain timestamp
  require (config.initialEpoch ≤ epoch) .initialEpochIsYetToArrive
  checkedDiv (epoch - config.initialEpoch) config.epochsPerFrame

def computeStartEpochOfFrameWithIndex (frameIndex : Nat) (config : FrameConfig) :
    Call OracleError Nat := do
  let epochs ← checkedMul 256 frameIndex config.epochsPerFrame
  checkedAdd 256 config.initialEpoch epochs

def computeFrameStartEpoch (chain : ChainConfig) (timestamp : Nat) (config : FrameConfig) :
    Call OracleError Nat := do
  let frameIndex ← computeFrameIndex chain timestamp config
  computeStartEpochOfFrameWithIndex frameIndex config

def getFrameAtIndex (chain : ChainConfig) (frameIndex : Nat) (config : FrameConfig) :
    Call OracleError ConsensusFrame := do
  let frameStartEpoch ← computeStartEpochOfFrameWithIndex frameIndex config
  let frameStartSlot ← computeStartSlotAtEpoch chain frameStartEpoch
  let frameLength ← checkedMul 64 config.epochsPerFrame chain.slotsPerEpoch
  let nextFrameStartSlot ← checkedAdd 256 frameStartSlot frameLength
  let refSlot ← checkedSub frameStartSlot 1
  let lastSlot ← checkedSub nextFrameStartSlot 1
  let deadlineSlot ← checkedSub lastSlot DEADLINE_SLOT_OFFSET
  return {
    index := frameIndex
    refSlot := refSlot % 2 ^ 64
    reportProcessingDeadlineSlot := deadlineSlot % 2 ^ 64 }

def getFrameAtTimestamp (chain : ChainConfig) (timestamp : Nat) (config : FrameConfig) :
    Call OracleError ConsensusFrame := do
  let frameIndex ← computeFrameIndex chain timestamp config
  getFrameAtIndex chain frameIndex config

/-- `_getCurrentFrame` -/
def getCurrentFrame (c : HashConsensus) (env : Env) : Call OracleError ConsensusFrame :=
  getFrameAtTimestamp c.chain env.timestamp c.frameConfig

/-- `_getInitialFrame` -/
def getInitialFrame (c : HashConsensus) : Call OracleError ConsensusFrame :=
  getFrameAtIndex c.chain 0 c.frameConfig

/-! ## As plain functions -/

variable (chain : ChainConfig) (config : FrameConfig)

def slotAt (timestamp : Nat) : Nat := (timestamp - chain.genesisTime) / chain.secondsPerSlot

def epochAt (timestamp : Nat) : Nat := slotAt chain timestamp / chain.slotsPerEpoch

def frameIndexAt (timestamp : Nat) : Nat :=
  (epochAt chain timestamp - config.initialEpoch) / config.epochsPerFrame

def frameStartEpochAt (timestamp : Nat) : Nat :=
  config.initialEpoch + frameIndexAt chain config timestamp * config.epochsPerFrame

/--
The reference slot of the frame that a time belongs to. Before the initial epoch this is the
reference slot of the first frame.
-/
def refSlotAt (timestamp : Nat) : Nat :=
  frameStartEpochAt chain config timestamp * chain.slotsPerEpoch - 1

/-- The last slot of the frame that a time belongs to. -/
def deadlineSlotAt (timestamp : Nat) : Nat :=
  frameStartEpochAt chain config timestamp * chain.slotsPerEpoch
    + config.epochsPerFrame * chain.slotsPerEpoch - 1

variable {chain config} {timestamp : Nat}

/-! ## Their agreement -/

theorem computeSlotAtTimestamp_eq_ok {slot : Nat} :
    computeSlotAtTimestamp chain timestamp = .ok slot ↔
      chain.genesisTime ≤ timestamp ∧ slot = slotAt chain timestamp := by
  have hne : chain.secondsPerSlot ≠ 0 := chain.secondsPerSlot_pos.ne'
  simp [computeSlotAtTimestamp, slotAt, hne]

theorem computeEpochAtTimestamp_eq_ok {epoch : Nat} :
    computeEpochAtTimestamp chain timestamp = .ok epoch ↔
      chain.genesisTime ≤ timestamp ∧ epoch = epochAt chain timestamp := by
  have hne : chain.slotsPerEpoch ≠ 0 := chain.slotsPerEpoch_pos.ne'
  simp [computeEpochAtTimestamp, computeEpochAtSlot, computeSlotAtTimestamp_eq_ok, epochAt, hne,
    and_assoc]

theorem computeFrameIndex_ok_cases {index : Nat}
    (h : computeFrameIndex chain timestamp config = .ok index) :
    chain.genesisTime ≤ timestamp ∧ config.initialEpoch ≤ epochAt chain timestamp ∧
      config.epochsPerFrame ≠ 0 ∧ index = frameIndexAt chain config timestamp := by
  simp only [computeFrameIndex, bind_eq_ok, computeEpochAtTimestamp_eq_ok, require_eq_ok,
    checkedDiv_eq_ok] at h
  obtain ⟨_, ⟨hgenesis, rfl⟩, _, harrived, hne, rfl⟩ := h
  exact ⟨hgenesis, harrived, hne, rfl⟩

theorem computeFrameStartEpoch_ok_cases {epoch : Nat}
    (h : computeFrameStartEpoch chain timestamp config = .ok epoch) :
    config.initialEpoch ≤ epochAt chain timestamp ∧
      epoch = frameStartEpochAt chain config timestamp := by
  simp only [computeFrameStartEpoch, computeStartEpochOfFrameWithIndex, bind_eq_ok,
    checkedMul_eq_ok, checkedAdd_eq_ok] at h
  obtain ⟨index, hindex, _, ⟨_, rfl⟩, _, rfl⟩ := h
  obtain ⟨-, harrived, -, rfl⟩ := computeFrameIndex_ok_cases hindex
  exact ⟨harrived, rfl⟩

/-- A frame is what the plain functions say, truncated to 64 bits. -/
theorem getFrameAtTimestamp_ok_cases {frame : ConsensusFrame}
    (h : getFrameAtTimestamp chain timestamp config = .ok frame) :
    config.initialEpoch ≤ epochAt chain timestamp ∧ config.epochsPerFrame ≠ 0 ∧
      frame.index = frameIndexAt chain config timestamp ∧
      frame.refSlot = refSlotAt chain config timestamp % 2 ^ 64 ∧
      frame.reportProcessingDeadlineSlot = deadlineSlotAt chain config timestamp % 2 ^ 64 := by
  simp only [getFrameAtTimestamp, getFrameAtIndex, computeStartEpochOfFrameWithIndex,
    computeStartSlotAtEpoch, bind_eq_ok, pure_eq_ok, checkedMul_eq_ok, checkedAdd_eq_ok,
    checkedSub_eq_ok] at h
  obtain ⟨index, hindex, _, ⟨_, ⟨_, rfl⟩, _, rfl⟩, _, ⟨_, rfl⟩, _, ⟨_, rfl⟩, _, ⟨_, rfl⟩, _,
    ⟨_, rfl⟩, _, ⟨_, rfl⟩, _, ⟨_, rfl⟩, rfl⟩ := h
  obtain ⟨-, harrived, hne, rfl⟩ := computeFrameIndex_ok_cases hindex
  exact ⟨harrived, hne, rfl, rfl, rfl⟩

/-- The reference slot of the initial frame is at most that of any frame. -/
theorem getInitialFrame_ok_le {c : HashConsensus} {frame : ConsensusFrame}
    (h : c.getInitialFrame = .ok frame) (timestamp : Nat) :
    frame.refSlot ≤ refSlotAt c.chain c.frameConfig timestamp := by
  simp only [getInitialFrame, getFrameAtIndex, computeStartEpochOfFrameWithIndex,
    computeStartSlotAtEpoch, bind_eq_ok, pure_eq_ok, checkedMul_eq_ok, checkedAdd_eq_ok,
    checkedSub_eq_ok] at h
  obtain ⟨_, ⟨_, ⟨_, rfl⟩, _, rfl⟩, _, ⟨_, rfl⟩, _, ⟨_, rfl⟩, _, ⟨_, rfl⟩, _, ⟨_, rfl⟩, _,
    ⟨_, rfl⟩, _, ⟨_, rfl⟩, rfl⟩ := h
  have hstart : c.frameConfig.initialEpoch * c.chain.slotsPerEpoch
      ≤ frameStartEpochAt c.chain c.frameConfig timestamp * c.chain.slotsPerEpoch :=
    Nat.mul_le_mul_right _ (Nat.le_add_right _ _)
  have htruncated := Nat.mod_le
    ((c.frameConfig.initialEpoch + 0 * c.frameConfig.epochsPerFrame) * c.chain.slotsPerEpoch - 1)
    (2 ^ 64)
  simp only [refSlotAt]
  rw [Nat.zero_mul, Nat.add_zero] at htruncated ⊢
  omega

/-! ## Order -/

theorem slotAt_mono (chain : ChainConfig) {s t : Nat} (h : s ≤ t) : slotAt chain s ≤ slotAt chain t :=
  Nat.div_le_div_right (Nat.sub_le_sub_right h _)

theorem epochAt_mono (chain : ChainConfig) {s t : Nat} (h : s ≤ t) :
    epochAt chain s ≤ epochAt chain t :=
  Nat.div_le_div_right (slotAt_mono chain h)

/-- The reference slot does not decrease with time. -/
theorem refSlotAt_mono (chain : ChainConfig) (config : FrameConfig) {s t : Nat} (h : s ≤ t) :
    refSlotAt chain config s ≤ refSlotAt chain config t := by
  have hindex : frameIndexAt chain config s ≤ frameIndexAt chain config t :=
    Nat.div_le_div_right (Nat.sub_le_sub_right (epochAt_mono chain h) _)
  have hstart : frameStartEpochAt chain config s ≤ frameStartEpochAt chain config t :=
    Nat.add_le_add_left (Nat.mul_le_mul_right _ hindex) _
  exact Nat.sub_le_sub_right (Nat.mul_le_mul_right _ hstart) 1

/-- A configuration whose initial epoch is the start of the current frame keeps or raises it. -/
theorem refSlotAt_le_of_start {config' : FrameConfig}
    (h : config'.initialEpoch = frameStartEpochAt chain config timestamp) :
    refSlotAt chain config timestamp ≤ refSlotAt chain config' timestamp := by
  have hstart : frameStartEpochAt chain config timestamp
      ≤ frameStartEpochAt chain config' timestamp := by
    rw [← h]
    exact Nat.le_add_right _ _
  exact Nat.sub_le_sub_right (Nat.mul_le_mul_right _ hstart) 1

theorem frameStartEpochAt_le (h : config.initialEpoch ≤ epochAt chain timestamp) :
    frameStartEpochAt chain config timestamp ≤ epochAt chain timestamp := by
  have hdiv : frameIndexAt chain config timestamp * config.epochsPerFrame
      ≤ epochAt chain timestamp - config.initialEpoch := Nat.div_mul_le_self _ _
  unfold frameStartEpochAt
  omega

/-- A time is at most at the deadline slot of its frame. -/
theorem slotAt_le_deadlineSlotAt (hne : config.epochsPerFrame ≠ 0)
    (h : config.initialEpoch ≤ epochAt chain timestamp) :
    slotAt chain timestamp ≤ deadlineSlotAt chain config timestamp := by
  have hepoch : epochAt chain timestamp + 1
      ≤ frameStartEpochAt chain config timestamp + config.epochsPerFrame := by
    have hlt := Nat.lt_div_mul_add (a := epochAt chain timestamp - config.initialEpoch)
      (Nat.pos_of_ne_zero hne)
    unfold frameStartEpochAt frameIndexAt
    omega
  have hslot : slotAt chain timestamp < (epochAt chain timestamp + 1) * chain.slotsPerEpoch := by
    have := Nat.lt_div_mul_add (a := slotAt chain timestamp) chain.slotsPerEpoch_pos
    unfold epochAt
    rw [Nat.add_mul, Nat.one_mul]
    exact this
  have hmul := Nat.mul_le_mul_right chain.slotsPerEpoch hepoch
  rw [Nat.add_mul (frameStartEpochAt chain config timestamp)] at hmul
  unfold deadlineSlotAt
  omega

theorem refSlotAt_le_deadlineSlotAt :
    refSlotAt chain config timestamp ≤ deadlineSlotAt chain config timestamp :=
  Nat.sub_le_sub_right (Nat.le_add_right _ _) 1

end HashConsensus

end Catalist
