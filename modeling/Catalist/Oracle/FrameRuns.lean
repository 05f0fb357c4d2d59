import Catalist.Oracle.Agreement

/-!
# Reporting frames over time

A run passes time and changes the frame configuration. The reference slot of the current frame never
decreases, a new frame length moves it by nothing or by a whole frame at least, and the current slot
is after the reference slot and not after the deadline slot.

The slots of a frame are cast to 64 bits without a check, although the fields that hold them are
wider. A frame length close to `2 ^ 64` slots is accepted and lets the deadline slot wrap around; so
the results are about frames whose last slot fits (`SlotsFit`), and `slot_in_frame_iff` says that this
is exactly when the current slot is in its frame.
-/

namespace Catalist

open Solidity Transition

namespace HashConsensus

variable {chain : ChainConfig} {config : FrameConfig} {timestamp : Nat} {frame : ConsensusFrame}

/-! ## One frame -/

/-- The first slot of the frame that a time belongs to. -/
def frameStartSlotAt (chain : ChainConfig) (config : FrameConfig) (timestamp : Nat) : Nat :=
  frameStartEpochAt chain config timestamp * chain.slotsPerEpoch

/-- A frame that exists does not start at slot zero, and its length fits 64 bits. -/
theorem getFrameAtTimestamp_bounds (h : getFrameAtTimestamp chain timestamp config = .ok frame) :
    0 < frameStartSlotAt chain config timestamp ∧
      config.epochsPerFrame * chain.slotsPerEpoch < 2 ^ 64 := by
  simp only [getFrameAtTimestamp, getFrameAtIndex, computeStartEpochOfFrameWithIndex,
    computeStartSlotAtEpoch, bind_eq_ok, pure_eq_ok, checkedMul_eq_ok, checkedAdd_eq_ok,
    checkedSub_eq_ok] at h
  obtain ⟨index, hindex, _, ⟨_, ⟨_, rfl⟩, _, rfl⟩, _, ⟨_, rfl⟩, _, ⟨hlength, rfl⟩, _, ⟨_, rfl⟩, _,
    ⟨hstart, rfl⟩, _⟩ := h
  obtain ⟨-, -, -, rfl⟩ := computeFrameIndex_ok_cases hindex
  exact ⟨hstart, hlength⟩

/-- A frame starts at or before the current slot. -/
theorem frameStartSlotAt_le (harrived : config.initialEpoch ≤ epochAt chain timestamp) :
    frameStartSlotAt chain config timestamp ≤ slotAt chain timestamp :=
  calc frameStartEpochAt chain config timestamp * chain.slotsPerEpoch
      ≤ epochAt chain timestamp * chain.slotsPerEpoch :=
        Nat.mul_le_mul_right _ (frameStartEpochAt_le harrived)
    _ ≤ slotAt chain timestamp := Nat.div_mul_le_self _ _

/-- The numbers of a frame that fits are the ones of the plain functions. -/
theorem getFrameAtTimestamp_slots (h : getFrameAtTimestamp chain timestamp config = .ok frame)
    (hfit : deadlineSlotAt chain config timestamp < 2 ^ 64) :
    frame.refSlot + 1 = frameStartSlotAt chain config timestamp ∧
      frame.reportProcessingDeadlineSlot + 1
        = frameStartSlotAt chain config timestamp + config.epochsPerFrame * chain.slotsPerEpoch := by
  obtain ⟨-, -, -, hrefSlot, hdeadline⟩ := getFrameAtTimestamp_ok_cases h
  obtain ⟨hstart, -⟩ := getFrameAtTimestamp_bounds h
  have hle : refSlotAt chain config timestamp ≤ deadlineSlotAt chain config timestamp :=
    refSlotAt_le_deadlineSlotAt
  rw [Nat.mod_eq_of_lt (by omega)] at hrefSlot hdeadline
  unfold refSlotAt at hrefSlot
  unfold deadlineSlotAt at hdeadline
  unfold frameStartSlotAt at hstart ⊢
  omega

/-- **The current slot is in the current frame if and only if the slots of the frame fit 64 bits.** -/
theorem slot_in_frame_iff (h : getFrameAtTimestamp chain timestamp config = .ok frame) :
    frame.refSlot < slotAt chain timestamp ∧
        slotAt chain timestamp ≤ frame.reportProcessingDeadlineSlot ↔
      deadlineSlotAt chain config timestamp < 2 ^ 64 := by
  obtain ⟨harrived, hne, -, hrefSlot, hdeadline⟩ := getFrameAtTimestamp_ok_cases h
  obtain ⟨hstart, hlength⟩ := getFrameAtTimestamp_bounds h
  have hle := frameStartSlotAt_le harrived
  constructor
  · rintro ⟨-, hslot⟩
    -- a deadline slot that wraps around is before the start of the frame
    by_contra hbig
    rw [hdeadline] at hslot
    unfold deadlineSlotAt at hslot hbig
    unfold frameStartSlotAt at hle
    omega
  · intro hfit
    obtain ⟨hrefSlot, hlast⟩ := getFrameAtTimestamp_slots h hfit
    have hslot := slotAt_le_deadlineSlotAt hne harrived
    unfold deadlineSlotAt at hslot
    unfold frameStartSlotAt at hrefSlot hlast hle
    omega

/-- The next frame of the same configuration begins after the deadline slot. -/
theorem refSlot_next {later : Nat} {next : ConsensusFrame}
    (h : getFrameAtTimestamp chain timestamp config = .ok frame)
    (hnext : getFrameAtTimestamp chain later config = .ok next)
    (hindex : next.index = frame.index + 1) :
    next.refSlot = frame.reportProcessingDeadlineSlot := by
  obtain ⟨-, -, hcurrent, -, hdeadline⟩ := getFrameAtTimestamp_ok_cases h
  obtain ⟨-, -, hlater, hrefSlot, -⟩ := getFrameAtTimestamp_ok_cases hnext
  have hstart : frameStartEpochAt chain config later
      = frameStartEpochAt chain config timestamp + config.epochsPerFrame := by
    unfold frameStartEpochAt
    rw [← hlater, hindex, hcurrent, Nat.add_mul, Nat.one_mul, Nat.add_assoc]
  rw [hrefSlot, hdeadline, refSlotAt, deadlineSlotAt, hstart, Nat.add_mul]

/-- A configuration that starts at the current frame keeps its start, or is whole frames later. -/
theorem frameStartSlotAt_of_start {config' : FrameConfig}
    (h : config'.initialEpoch = frameStartEpochAt chain config timestamp) :
    frameStartSlotAt chain config' timestamp = frameStartSlotAt chain config timestamp ∨
      frameStartSlotAt chain config timestamp + config'.epochsPerFrame * chain.slotsPerEpoch
        ≤ frameStartSlotAt chain config' timestamp := by
  have hstart : frameStartEpochAt chain config' timestamp
      = frameStartEpochAt chain config timestamp
        + frameIndexAt chain config' timestamp * config'.epochsPerFrame := by
    rw [← h]
    rfl
  unfold frameStartSlotAt
  rw [hstart]
  by_cases hindex : frameIndexAt chain config' timestamp = 0
  · left
    rw [hindex, Nat.zero_mul, Nat.add_zero]
  · right
    rw [← Nat.add_mul]
    refine Nat.mul_le_mul_right _ (Nat.add_le_add_left ?_ _)
    exact Nat.le_mul_of_pos_left _ (Nat.pos_of_ne_zero hindex)

end HashConsensus

namespace ConsensusSystem

open HashConsensus

/-! ## Runs -/

/-- `_getCurrentFrame` at a moment of a run. -/
def currentFrame (x : ConsensusSystem × Nat) : Call OracleError ConsensusFrame :=
  getFrameAtTimestamp x.1.consensus.chain x.2 x.1.consensus.frameConfig

/-- A step under `Guard`, or a call that leaves the configuration alone. -/
inductive FrameStep (Guard : HashConsensus → Nat → Prop) :
    ConsensusSystem × Nat → ConsensusSystem × Nat → Prop where
  | clock {x y : ConsensusSystem × Nat} : ClockStep Guard x y → FrameStep Guard x y
  | other {s s' : ConsensusSystem} {now : Nat} :
      s'.consensus.chain = s.consensus.chain →
      s'.consensus.frameConfig = s.consensus.frameConfig → FrameStep Guard (s, now) (s', now)

variable {x y : ConsensusSystem × Nat} {frame frame' : ConsensusFrame}

/-- The frame at a moment exists and fits, and it is not before the slot `r`. -/
structure FrameFrom (r : Nat) (x : ConsensusSystem × Nat) : Prop where
  arrived : x.1.consensus.frameConfig.initialEpoch ≤ epochAt x.1.consensus.chain x.2
  fits : x.1.consensus.SlotsFit x.2
  le : r ≤ x.1.consensus.currentRefSlot x.2

/-- Once the initial epoch has arrived, no call moves the frame back. -/
theorem FrameFrom.step {r : Nat} (h : FrameFrom r x)
    (hstep : FrameStep (fun c now => c.SlotsFit now) x y) : FrameFrom r y := by
  cases hstep with
  | clock hclock =>
    have hreframed := hclock.reframed
    refine ⟨?_, hclock.guard, h.le.trans (hreframed.refSlot_le h.arrived)⟩
    by_contra hyet
    exact absurd h.arrived (Nat.not_le.mpr (hreframed.early (Nat.not_le.mp hyet)))
  | other hchain hconfig =>
    obtain ⟨harrived, hfit, hle⟩ := h
    refine ⟨?_, ?_, ?_⟩
    · simpa only [hchain, hconfig] using harrived
    · simpa only [SlotsFit, hchain, hconfig] using hfit
    · simpa only [currentRefSlot, hchain, hconfig] using hle

theorem frameFrom_of_run (hfit : x.1.consensus.SlotsFit x.2)
    (harrived : x.1.consensus.frameConfig.initialEpoch ≤ epochAt x.1.consensus.chain x.2)
    (hrun : Reachable (· = x) (FrameStep fun c now => c.SlotsFit now) y) :
    FrameFrom (x.1.consensus.currentRefSlot x.2) y := by
  induction hrun with
  | init heq =>
    subst heq
    exact ⟨harrived, hfit, Nat.le_refl _⟩
  | step _ hstep ih => exact ih.step hstep

/-- The chain specification is immutable. -/
theorem chain_of_run {Guard : HashConsensus → Nat → Prop}
    (hrun : Reachable (· = x) (FrameStep Guard) y) : y.1.consensus.chain = x.1.consensus.chain := by
  induction hrun with
  | init heq => rw [heq]
  | step _ hstep ih =>
    cases hstep with
    | clock hclock =>
      obtain ⟨config, hasRole, hconsensus⟩ := hclock.reframed.consensus
      rw [hconsensus]
      exact ih
    | other hchain hconfig => exact hchain.trans ih

theorem refSlot_eq_currentRefSlot (hfit : x.1.consensus.SlotsFit x.2) (h : currentFrame x = .ok frame) :
    frame.refSlot = x.1.consensus.currentRefSlot x.2 := by
  obtain ⟨harrived, -, -, hrefSlot, -⟩ := getFrameAtTimestamp_ok_cases h
  have hbound := hfit harrived
  have hle : refSlotAt x.1.consensus.chain x.1.consensus.frameConfig x.2
      ≤ deadlineSlotAt x.1.consensus.chain x.1.consensus.frameConfig x.2 :=
    refSlotAt_le_deadlineSlotAt
  rw [Nat.mod_eq_of_lt (by omega)] at hrefSlot
  exact hrefSlot

/-- A new frame length keeps the reference slot, or moves it by a whole new frame at least. -/
theorem refSlot_setFrameConfig {env : Env} {epochsPerFrame fast : Nat} {s s' : ConsensusSystem}
    (h : s.setFrameConfig env epochsPerFrame fast = .ok s')
    (hfit : s.consensus.SlotsFit env.timestamp) (hfit' : s'.consensus.SlotsFit env.timestamp)
    (hframe : currentFrame (s, env.timestamp) = .ok frame)
    (hframe' : currentFrame (s', env.timestamp) = .ok frame') :
    frame'.refSlot = frame.refSlot ∨
      frame.refSlot + epochsPerFrame * s.consensus.chain.slotsPerEpoch ≤ frame'.refSlot := by
  obtain ⟨harrived, rfl⟩ := setFrameConfig_ok_cases h
  obtain ⟨harrived', -⟩ := getFrameAtTimestamp_ok_cases hframe'
  obtain ⟨hrefSlot, -⟩ := getFrameAtTimestamp_slots hframe (hfit harrived)
  obtain ⟨hrefSlot', -⟩ := getFrameAtTimestamp_slots hframe' (hfit' harrived')
  have hstart := @frameStartSlotAt_of_start s.consensus.chain s.consensus.frameConfig env.timestamp
    { initialEpoch := frameStartEpochAt s.consensus.chain s.consensus.frameConfig env.timestamp
      epochsPerFrame := epochsPerFrame
      fastLaneLengthSlots := fast } rfl
  simp only at hrefSlot hrefSlot' hstart
  omega

/-! ## The main result -/

/--
**Frames only move forward.** From a state `x` whose frame exists, in every run whose frames fit:
the reference slot is not before that of `x`, the current slot is in the current frame, the next
frame of an unchanged configuration begins after the deadline slot of this one, and `setFrameConfig`
keeps the reference slot or raises it by the smaller frame length at least.
-/
theorem frames_move_forward (hfit : x.1.consensus.SlotsFit x.2) (hframe : currentFrame x = .ok frame)
    (hrun : Reachable (· = x) (FrameStep fun c now => c.SlotsFit now) y)
    (hframe' : currentFrame y = .ok frame') :
    frame.refSlot ≤ frame'.refSlot ∧
    (frame'.refSlot < slotAt y.1.consensus.chain y.2 ∧
      slotAt y.1.consensus.chain y.2 ≤ frame'.reportProcessingDeadlineSlot) ∧
    (y.1.consensus.frameConfig = x.1.consensus.frameConfig → frame'.index = frame.index + 1 →
      frame'.refSlot = frame.reportProcessingDeadlineSlot) ∧
    ∀ (env : Env) (epochsPerFrame fast : Nat) (s' : ConsensusSystem) (frame'' : ConsensusFrame),
      env.timestamp = y.2 → y.1.setFrameConfig env epochsPerFrame fast = .ok s' →
      s'.consensus.SlotsFit y.2 → currentFrame (s', y.2) = .ok frame'' →
      frame''.refSlot = frame'.refSlot ∨
        frame'.refSlot + min (y.1.consensus.frameConfig.epochsPerFrame * y.1.consensus.chain.slotsPerEpoch)
          (epochsPerFrame * y.1.consensus.chain.slotsPerEpoch) ≤ frame''.refSlot := by
  obtain ⟨harrived, -⟩ := getFrameAtTimestamp_ok_cases hframe
  have hfrom := frameFrom_of_run hfit harrived hrun
  refine ⟨?_, ?_, ?_, ?_⟩
  · rw [refSlot_eq_currentRefSlot hfit hframe, refSlot_eq_currentRefSlot hfrom.fits hframe']
    exact hfrom.le
  · exact (slot_in_frame_iff hframe').mpr (hfrom.fits hfrom.arrived)
  · intro hconfig hindex
    unfold currentFrame at hframe'
    rw [chain_of_run hrun, hconfig] at hframe'
    exact refSlot_next hframe hframe' hindex
  · intro env epochsPerFrame fast s' frame'' htime hset hfit' hframe''
    rcases y with ⟨s, now⟩
    obtain rfl : env.timestamp = now := htime
    rcases refSlot_setFrameConfig hset hfrom.fits hfit' hframe' hframe'' with heq | hle
    · exact .inl heq
    · exact .inr ((Nat.add_le_add_left (Nat.min_le_right _ _) _).trans hle)

theorem exampleLongFrameTime_pos : 0 < 768 := by decide

/-- Account 1 may do everything. -/
def exampleAdministered : ConsensusSystem :=
  { exampleScheduled with
    consensus := { exampleScheduled.consensus with hasRole := fun _ _ => true } }

/-- In the second frame, at epoch 2, the frame length is set to `epochsPerFrame`. -/
def exampleResized (epochsPerFrame : Nat)
    (h : (exampleAdministered.setFrameConfig (exampleEnv 1 768 exampleLongFrameTime_pos)
      epochsPerFrame 0).isOk = true) : ConsensusSystem :=
  result _ h

theorem isOk_exampleLonger : (exampleAdministered.setFrameConfig
    (exampleEnv 1 768 exampleLongFrameTime_pos) 3 0).isOk = true := by decide +kernel

theorem isOk_exampleLongest : (exampleAdministered.setFrameConfig
    (exampleEnv 1 768 exampleLongFrameTime_pos) (2 ^ 59 - 1) 0).isOk = true := by decide +kernel

/-- A run from the first frame to a longer one. -/
theorem frames_move_forward_longer : ∃ frame frame',
    currentFrame (exampleScheduled, 384) = .ok frame ∧
    currentFrame (exampleResized 3 isOk_exampleLonger, 768) = .ok frame' ∧
    frame.refSlot ≤ frame'.refSlot := by
  have hstart : Reachable (· = (exampleScheduled, 384)) (FrameStep fun c now => c.SlotsFit now)
      (exampleScheduled, 384) := .init rfl
  have hroles := hstart.step (.clock (.configure
    (@ConfigCall.setRoles (exampleEnv 1 384 exampleReportTime_pos) _ fun _ _ => true)
    (by decide +kernel)))
  have hlater := hroles.step (.clock (@ClockStep.tick _ _ _ 768 (by decide) (by decide +kernel)))
  have hresized := hlater.step (.clock (.configure
    (@ConfigCall.setFrameConfig (exampleEnv 1 768 exampleLongFrameTime_pos) exampleAdministered
      (exampleResized 3 isOk_exampleLonger) 3 0 (eq_ok_result _ isOk_exampleLonger))
    (by decide +kernel)))
  have hframe : currentFrame (exampleScheduled, 384) = .ok ⟨0, 31, 63⟩ := by decide +kernel
  have hframe' : currentFrame (exampleResized 3 isOk_exampleLonger, 768) = .ok ⟨0, 63, 159⟩ := by
    decide +kernel
  exact ⟨_, _, hframe, hframe',
    (frames_move_forward (by decide +kernel) hframe hresized hframe').1⟩

/--
The longest frame length that is accepted: the frame at epoch 2 gets the deadline slot 31, and the
current slot is 64.
-/
theorem not_in_frame_of_longest : ¬∀ (x : ConsensusSystem × Nat) (frame : ConsensusFrame),
    Reachable Deployed (FrameStep fun c _ => 1 ≤ c.frameConfig.initialEpoch) x →
    currentFrame x = .ok frame →
    slotAt x.1.consensus.chain x.2 ≤ frame.reportProcessingDeadlineSlot := by
  intro hall
  have hdeployed : Reachable Deployed (FrameStep fun c _ => 1 ≤ c.frameConfig.initialEpoch)
      (exampleDeployment, 1) := .init deployed_exampleDeployment
  have hscheduled := hdeployed.step (.clock (.configure
    (@ConfigCall.updateInitialEpoch (exampleEnv 1 1 Nat.one_pos) _ exampleScheduled 1
      (eq_ok_result _ (by decide +kernel))) (by decide +kernel)))
  have hroles := hscheduled.step (.clock (.configure
    (@ConfigCall.setRoles (exampleEnv 1 1 Nat.one_pos) _ fun _ _ => true) (by decide +kernel)))
  have hlater := hroles.step (.clock (@ClockStep.tick _ _ _ 768 (by decide) (by decide +kernel)))
  have hresized := hlater.step (.clock (.configure
    (@ConfigCall.setFrameConfig (exampleEnv 1 768 exampleLongFrameTime_pos) exampleAdministered
      (exampleResized (2 ^ 59 - 1) isOk_exampleLongest) (2 ^ 59 - 1) 0
      (eq_ok_result _ isOk_exampleLongest)) (by decide +kernel)))
  have hframe : currentFrame (exampleResized (2 ^ 59 - 1) isOk_exampleLongest, 768)
      = .ok ⟨0, 63, 31⟩ := by decide +kernel
  exact absurd (hall _ _ hresized hframe) (by decide +kernel)

end ConsensusSystem

end Catalist
