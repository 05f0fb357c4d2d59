import Catalist.Lib.RateLimit
import Catalist.Pool.Dilution

/-!
# The stake limit

`StakeLimitUtils.sol` and the functions of the pool that use it. The state is packed into one word;
every call loads the word, works on the struct and stores it again. What regenerates per block is not
stored: it is `maxStakeLimit / maxStakeLimitGrowthBlocks`, where the number of blocks was rounded
down.
-/

namespace Catalist

open Solidity Transition RateLimit

/-! ## The packed word -/

def MAX_STAKE_LIMIT_OFFSET : Nat := 160

def MAX_STAKE_LIMIT_GROWTH_BLOCKS_OFFSET : Nat := 128

def PREV_STAKE_LIMIT_OFFSET : Nat := 32

def PREV_STAKE_BLOCK_NUMBER_OFFSET : Nat := 0

namespace StakeLimitState

def getStorageStakeLimitStruct (slotValue : BitVec 256) : StakeLimitState where
  prevStakeBlockNumber := ((slotValue >>> PREV_STAKE_BLOCK_NUMBER_OFFSET).setWidth 32).toNat
  prevStakeLimit := ((slotValue >>> PREV_STAKE_LIMIT_OFFSET).setWidth 96).toNat
  maxStakeLimitGrowthBlocks :=
    ((slotValue >>> MAX_STAKE_LIMIT_GROWTH_BLOCKS_OFFSET).setWidth 32).toNat
  maxStakeLimit := ((slotValue >>> MAX_STAKE_LIMIT_OFFSET).setWidth 96).toNat

variable (data : StakeLimitState)

def setStorageStakeLimitStruct : BitVec 256 :=
  (BitVec.ofNat 256 data.prevStakeBlockNumber <<< PREV_STAKE_BLOCK_NUMBER_OFFSET) |||
  (BitVec.ofNat 256 data.prevStakeLimit <<< PREV_STAKE_LIMIT_OFFSET) |||
  (BitVec.ofNat 256 data.maxStakeLimitGrowthBlocks <<< MAX_STAKE_LIMIT_GROWTH_BLOCKS_OFFSET) |||
  (BitVec.ofNat 256 data.maxStakeLimit <<< MAX_STAKE_LIMIT_OFFSET)

/-- Every field fits into its part of the word. -/
structure Fits : Prop where
  prevStakeBlockNumber : data.prevStakeBlockNumber < 2 ^ 32
  prevStakeLimit : data.prevStakeLimit < 2 ^ 96
  maxStakeLimitGrowthBlocks : data.maxStakeLimitGrowthBlocks < 2 ^ 32
  maxStakeLimit : data.maxStakeLimit < 2 ^ 96

variable {data} {slotValue : BitVec 256}

theorem toNat_field (offset w : Nat) :
    ((slotValue >>> offset).setWidth w).toNat = slotValue.toNat / 2 ^ offset % 2 ^ w := by
  rw [BitVec.toNat_setWidth, BitVec.toNat_ushiftRight, Nat.shiftRight_eq_div_pow]

/-- The fields do not overlap, so the word is their weighted sum. -/
theorem toNat_setStorageStakeLimitStruct (h : Fits data) :
    data.setStorageStakeLimitStruct.toNat
      = data.prevStakeBlockNumber + data.prevStakeLimit * 2 ^ 32
        + data.maxStakeLimitGrowthBlocks * 2 ^ 128 + data.maxStakeLimit * 2 ^ 160 := by
  obtain ⟨hblock, hprev, hgrowth, hmax⟩ := h
  have hfield : ∀ {x w offset : Nat}, x < 2 ^ w → w + offset ≤ 256 →
      (BitVec.ofNat 256 x <<< offset).toNat = x <<< offset := by
    intro x w offset hx hw
    have hsmall : x * 2 ^ offset < 2 ^ 256 := by
      calc x * 2 ^ offset < 2 ^ w * 2 ^ offset := Nat.mul_lt_mul_of_pos_right hx (Nat.two_pow_pos _)
        _ = 2 ^ (w + offset) := (Nat.pow_add ..).symm
        _ ≤ 2 ^ 256 := Nat.pow_le_pow_right (by omega) hw
    have hx' : x < 2 ^ 256 := Nat.lt_of_le_of_lt (Nat.le_mul_of_pos_right _ (Nat.two_pow_pos _)) hsmall
    rw [BitVec.toNat_shiftLeft, BitVec.toNat_ofNat, Nat.mod_eq_of_lt hx', Nat.shiftLeft_eq,
      Nat.mod_eq_of_lt hsmall]
  unfold setStorageStakeLimitStruct PREV_STAKE_BLOCK_NUMBER_OFFSET PREV_STAKE_LIMIT_OFFSET
    MAX_STAKE_LIMIT_GROWTH_BLOCKS_OFFSET MAX_STAKE_LIMIT_OFFSET
  rw [BitVec.toNat_or, BitVec.toNat_or, BitVec.toNat_or, hfield hblock (by omega),
    hfield hprev (by omega), hfield hgrowth (by omega), hfield hmax (by omega),
    Nat.shiftLeft_zero, Nat.or_comm data.prevStakeBlockNumber,
    ← Nat.shiftLeft_add_eq_or_of_lt hblock, Nat.or_comm _ (data.maxStakeLimitGrowthBlocks <<< 128),
    ← Nat.shiftLeft_add_eq_or_of_lt (by rw [Nat.shiftLeft_eq]; omega),
    Nat.or_comm _ (data.maxStakeLimit <<< 160),
    ← Nat.shiftLeft_add_eq_or_of_lt (by rw [Nat.shiftLeft_eq, Nat.shiftLeft_eq]; omega),
    Nat.shiftLeft_eq, Nat.shiftLeft_eq, Nat.shiftLeft_eq]
  omega

/-- What was stored is loaded again. -/
theorem getStorage_setStorage (h : Fits data) :
    getStorageStakeLimitStruct data.setStorageStakeLimitStruct = data := by
  have hsum := toNat_setStorageStakeLimitStruct h
  obtain ⟨hblock, hprev, hgrowth, hmax⟩ := h
  unfold getStorageStakeLimitStruct PREV_STAKE_BLOCK_NUMBER_OFFSET PREV_STAKE_LIMIT_OFFSET
    MAX_STAKE_LIMIT_GROWTH_BLOCKS_OFFSET MAX_STAKE_LIMIT_OFFSET
  rw [toNat_field, toNat_field, toNat_field, toNat_field, hsum]
  cases data
  simp only [mk.injEq] at *
  refine ⟨?_, ?_, ?_, ?_⟩ <;> omega

theorem fits_getStorage : Fits (getStorageStakeLimitStruct slotValue) :=
  ⟨BitVec.isLt _, BitVec.isLt _, BitVec.isLt _, BitVec.isLt _⟩

/-- Storing what was loaded changes nothing. -/
theorem setStorage_getStorage :
    (getStorageStakeLimitStruct slotValue).setStorageStakeLimitStruct = slotValue := by
  refine BitVec.eq_of_toNat_eq ?_
  rw [toNat_setStorageStakeLimitStruct fits_getStorage]
  unfold getStorageStakeLimitStruct PREV_STAKE_BLOCK_NUMBER_OFFSET PREV_STAKE_LIMIT_OFFSET
    MAX_STAKE_LIMIT_GROWTH_BLOCKS_OFFSET MAX_STAKE_LIMIT_OFFSET
  simp only [toNat_field]
  omega

/-! ## Setting the limit and pausing -/

/-- `setStakingLimit` -/
def setStakingLimit (data : StakeLimitState)
    (blockNumber maxStakeLimit stakeLimitIncreasePerBlock : Nat) :
    Call PoolError StakeLimitState := do
  require (maxStakeLimit ≠ 0) .zeroMaxStakeLimit
  require (maxStakeLimit < 2 ^ 96) .tooLargeMaxStakeLimit
  require (stakeLimitIncreasePerBlock ≤ maxStakeLimit) .tooLargeLimitIncrease
  require (stakeLimitIncreasePerBlock = 0 ∨ maxStakeLimit / stakeLimitIncreasePerBlock < 2 ^ 32)
    .tooSmallLimitIncrease
  return {
    prevStakeBlockNumber :=
      if data.prevStakeBlockNumber ≠ 0 then blockNumber % 2 ^ 32 else data.prevStakeBlockNumber
    prevStakeLimit :=
      if data.prevStakeBlockNumber = 0 ∨ data.maxStakeLimit = 0 ∨ maxStakeLimit < data.prevStakeLimit
      then maxStakeLimit % 2 ^ 96 else data.prevStakeLimit
    maxStakeLimitGrowthBlocks :=
      if stakeLimitIncreasePerBlock ≠ 0 then maxStakeLimit / stakeLimitIncreasePerBlock % 2 ^ 32
      else 0
    maxStakeLimit := maxStakeLimit % 2 ^ 96 }

def setStakeLimitPauseState (data : StakeLimitState) (blockNumber : Nat) (isPaused : Bool) :
    StakeLimitState :=
  { data with prevStakeBlockNumber := (if isPaused = true then 0 else blockNumber) % 2 ^ 32 }

end StakeLimitState

open StakeLimitState

namespace StakingState

/-! ## The calls of the pool on the stored word -/

/-- `setStakingLimit` of the pool; `canPerform` is the answer of the access control list. -/
def setStakingLimit (canPerform : Bool) (slotValue : BitVec 256)
    (blockNumber maxStakeLimit stakeLimitIncreasePerBlock : Nat) :
    Call PoolError (BitVec 256) := do
  require (canPerform = true) .appAuthFailed
  let data ← (getStorageStakeLimitStruct slotValue).setStakingLimit blockNumber maxStakeLimit
    stakeLimitIncreasePerBlock
  return data.setStorageStakeLimitStruct

def pauseStaking (canPerform : Bool) (slotValue : BitVec 256) (blockNumber : Nat) :
    Call PoolError (BitVec 256) := do
  require (canPerform = true) .appAuthFailed
  let data := (getStorageStakeLimitStruct slotValue).setStakeLimitPauseState blockNumber true
  return data.setStorageStakeLimitStruct

def resumeStaking (canPerform hasInitialized : Bool) (slotValue : BitVec 256) (blockNumber : Nat) :
    Call PoolError (BitVec 256) := do
  require (canPerform = true) .appAuthFailed
  require (hasInitialized = true) .notInitialized
  let data := (getStorageStakeLimitStruct slotValue).setStakeLimitPauseState blockNumber false
  return data.setStorageStakeLimitStruct

/--
`_submit` of a pool whose staking state is stored in the word. Without a limit nothing is stored,
which is the same as storing what was loaded.
-/
def submit (s : Pool) (slotValue : BitVec 256) (env : Env) (blockNumber : Nat) :
    Call PoolError (Pool × BitVec 256 × Nat) := do
  let (s, sharesAmount) ←
    { s with stakeLimit := getStorageStakeLimitStruct slotValue }.submit env blockNumber
  return (s, s.stakeLimit.setStorageStakeLimitStruct, sharesAmount)

end StakingState

/-! ## What is left at a block -/

namespace StakeLimitState

variable {data data' : StakeLimitState} {slotValue : BitVec 256}
  {M I b b' blockNumber amount : Nat} {isPaused : Bool}

/-- What regenerates per block of a limit that was set to `M` with the increase `I`. -/
def incPerBlock (M I : Nat) : Nat := M / (M / I)

/-- The increase is rounded up. -/
theorem le_incPerBlock (hI : 0 < I) (hle : I ≤ M) : I ≤ incPerBlock M I := by
  have hblocks : 0 < M / I := Nat.div_pos hle hI
  rw [incPerBlock, Nat.le_div_iff_mul_le hblocks]
  exact Nat.mul_div_le M I

/-- It is the one that was set if this divides the maximum. -/
theorem incPerBlock_of_dvd (hM : 0 < M) (hdvd : I ∣ M) : incPerBlock M I = I := by
  obtain ⟨k, rfl⟩ := hdvd
  have hI : 0 < I := Nat.pos_of_mul_pos_right hM
  have hk : 0 < k := Nat.pos_of_mul_pos_left hM
  rw [incPerBlock, Nat.mul_div_cancel_left k hI, Nat.mul_div_cancel I hk]

/-- The state of a limit that was set to `M` with the increase `I`, at the block `b`. -/
structure LimitSet (M I : Nat) (data : StakeLimitState) (b : Nat) : Prop where
  max_pos : 0 < M
  max_lt : M < 2 ^ 96
  blocks_lt : M / I < 2 ^ 32
  maxStakeLimit : data.maxStakeLimit = M
  growthBlocks : data.maxStakeLimitGrowthBlocks = M / I
  prev_le : data.prevStakeLimit ≤ M
  block_le : data.prevStakeBlockNumber ≤ b
  block_lt : b < 2 ^ 32

/-- What can be submitted, or could be, if staking were resumed. -/
def level (data : StakeLimitState) (b : Nat) : Nat :=
  if data.prevStakeBlockNumber = 0 then data.prevStakeLimit
  else data.calculateCurrentStakeLimit b

theorem LimitSet.fits (h : LimitSet M I data b) : Fits data where
  prevStakeBlockNumber := Nat.lt_of_le_of_lt h.block_le h.block_lt
  prevStakeLimit := Nat.lt_of_le_of_lt h.prev_le h.max_lt
  maxStakeLimitGrowthBlocks := by
    rw [h.growthBlocks]
    exact h.blocks_lt
  maxStakeLimit := by
    rw [h.maxStakeLimit]
    exact h.max_lt

theorem LimitSet.later (h : LimitSet M I data b) (hle : b ≤ b') (hlt : b' < 2 ^ 32) : LimitSet M I data b' :=
  { h with
    block_le := h.block_le.trans hle
    block_lt := hlt }

/-- Nothing overflows: the limit is the one of before and what has regenerated, up to the maximum. -/
theorem LimitSet.calculateCurrentStakeLimit (h : LimitSet M I data b) :
    data.calculateCurrentStakeLimit b
      = min (data.prevStakeLimit + (b - data.prevStakeBlockNumber) * incPerBlock M I) M := by
  have hblock := h.block_le
  have hlt := h.block_lt
  have hinc : incPerBlock M I ≤ M := Nat.div_le_self _ _
  have hpassed : (b + 2 ^ 256 - data.prevStakeBlockNumber) % 2 ^ 256
      = b - data.prevStakeBlockNumber := by omega
  have hgrown : (b - data.prevStakeBlockNumber) * incPerBlock M I ≤ 2 ^ 32 * 2 ^ 96 :=
    Nat.mul_le_mul (by omega) (hinc.trans (Nat.le_of_lt h.max_lt))
  have hsmall : data.prevStakeLimit + (b - data.prevStakeBlockNumber) * incPerBlock M I < 2 ^ 256 := by
    have hprev := h.prev_le
    have hmax := h.max_lt
    omega
  have hrate : (if data.maxStakeLimitGrowthBlocks ≠ 0
      then data.maxStakeLimit / data.maxStakeLimitGrowthBlocks else 0) = incPerBlock M I := by
    rw [h.growthBlocks, h.maxStakeLimit, incPerBlock]
    by_cases hblocks : M / I = 0
    · rw [if_neg (not_not.mpr hblocks), hblocks, Nat.div_zero]
    · rw [if_pos hblocks]
  unfold StakeLimitState.calculateCurrentStakeLimit
  show min ((_ + _ * ite _ _ _) % _) _ = _
  rw [hrate, hpassed, Nat.mod_eq_of_lt hsmall, h.maxStakeLimit]

/-- A pause does not raise the level, and neither does a call to resume. -/
theorem LimitSet.prev_le_level (h : LimitSet M I data b) : data.prevStakeLimit ≤ data.level b := by
  unfold level
  split
  · exact Nat.le_refl _
  · rw [h.calculateCurrentStakeLimit]
    exact Nat.le_min.mpr ⟨Nat.le_add_right _ _, h.prev_le⟩

theorem LimitSet.level_le (h : LimitSet M I data b) : data.level b ≤ M := by
  unfold level
  split
  · exact h.prev_le
  · rw [h.calculateCurrentStakeLimit]
    exact Nat.min_le_right _ _

/-- The level grows by what regenerates. -/
theorem LimitSet.level_later (h : LimitSet M I data b) (hle : b ≤ b') (hlt : b' < 2 ^ 32) :
    data.level b' ≤ data.level b + (b' - b) * incPerBlock M I := by
  have hblock := h.block_le
  have hsplit : (b' - data.prevStakeBlockNumber) * incPerBlock M I
      = (b - data.prevStakeBlockNumber) * incPerBlock M I + (b' - b) * incPerBlock M I := by
    rw [← Nat.add_mul]
    congr 1
    omega
  unfold level
  split
  · exact Nat.le_add_right _ _
  · rw [(h.later hle hlt).calculateCurrentStakeLimit, h.calculateCurrentStakeLimit, hsplit]
    omega

/-- At the block that was stored, the level is the limit that was stored. -/
theorem LimitSet.level_stored (h : LimitSet M I data b)
    (hblock : data.prevStakeBlockNumber = b ∨ data.prevStakeBlockNumber = 0) :
    data.level b = data.prevStakeLimit := by
  unfold level
  split
  · rfl
  · next hpos =>
    obtain heq : data.prevStakeBlockNumber = b := hblock.resolve_right hpos
    rw [h.calculateCurrentStakeLimit, heq, Nat.sub_self, Nat.zero_mul, Nat.add_zero]
    exact Nat.min_eq_left h.prev_le

/-! ## One call -/

theorem setStakingLimit_ok_cases (h : data.setStakingLimit b M I = .ok data') (hb : b < 2 ^ 32) :
    LimitSet M I data' b := by
  simp only [setStakingLimit, bind_eq_ok, require_eq_ok, pure_eq_ok] at h
  obtain ⟨_, hM, _, hmax, _, _, _, hblocks, rfl⟩ := h
  have hblocks_lt : M / I < 2 ^ 32 := by
    rcases hblocks with rfl | hlt
    · rw [Nat.div_zero]
      exact Nat.two_pow_pos _
    · exact hlt
  exact {
    max_pos := Nat.pos_of_ne_zero hM
    max_lt := hmax
    blocks_lt := hblocks_lt
    maxStakeLimit := Nat.mod_eq_of_lt hmax
    growthBlocks := by
      show (if I ≠ 0 then M / I % 2 ^ 32 else 0) = _
      by_cases hI : I = 0
      · rw [if_neg (not_not.mpr hI), hI, Nat.div_zero]
      · rw [if_pos hI, Nat.mod_eq_of_lt hblocks_lt]
    prev_le := by
      show (if _ then M % 2 ^ 96 else data.prevStakeLimit) ≤ M
      split
      · exact Nat.mod_le _ _
      · next hkeep => omega
    block_le := by
      show (if data.prevStakeBlockNumber ≠ 0 then b % 2 ^ 32 else data.prevStakeBlockNumber) ≤ b
      split
      · exact Nat.mod_le _ _
      · next hpaused => omega
    block_lt := hb }

theorem LimitSet.setStakeLimitPauseState (h : LimitSet M I data b) :
    LimitSet M I (data.setStakeLimitPauseState b isPaused) b where
  max_pos := h.max_pos
  max_lt := h.max_lt
  blocks_lt := h.blocks_lt
  maxStakeLimit := h.maxStakeLimit
  growthBlocks := h.growthBlocks
  prev_le := h.prev_le
  block_le := by
    refine (Nat.mod_le _ _).trans ?_
    split
    · exact Nat.zero_le _
    · exact Nat.le_refl _
  block_lt := h.block_lt

/-- Pausing keeps the limit of the last submit, resuming starts from it again. -/
theorem LimitSet.level_setStakeLimitPauseState (h : LimitSet M I data b) :
    (data.setStakeLimitPauseState b isPaused).level b ≤ data.level b := by
  have hstored : (data.setStakeLimitPauseState b isPaused).level b = data.prevStakeLimit := by
    refine h.setStakeLimitPauseState.level_stored ?_
    cases isPaused with
    | true => exact .inr rfl
    | false => exact .inl (Nat.mod_eq_of_lt h.block_lt)
  rw [hstored]
  exact h.prev_le_level

/-- A submit takes its amount off what is left. -/
theorem LimitSet.consume (h : LimitSet M I data b)
    (hconsume : data.consume b amount = .ok data') :
    amount ≤ data.level b ∧ LimitSet M I data' b ∧ data'.level b = data.level b - amount := by
  have hlimit : data.isStakingLimitSet = true := by
    unfold isStakingLimitSet
    rw [h.maxStakeLimit]
    exact decide_eq_true h.max_pos.ne'
  simp only [StakeLimitState.consume, hlimit, if_true, updatePrevStakeLimit, bind_eq_ok,
    require_eq_ok, ensure_eq_ok, pure_eq_ok] at hconsume
  obtain ⟨_, hrunning, _, hle, _, hfits, _, hpos, rfl⟩ := hconsume
  have hlevel : data.level b = data.calculateCurrentStakeLimit b := if_neg hpos
  have hmax := h.level_le
  rw [hlevel] at hmax ⊢
  have hset : LimitSet M I { data with
      prevStakeLimit := data.calculateCurrentStakeLimit b - amount
      prevStakeBlockNumber := b % 2 ^ 32 } b :=
    { h with
      prev_le := (Nat.sub_le _ _).trans hmax
      block_le := Nat.mod_le _ _ }
  exact ⟨hle, hset, hset.level_stored (.inl (Nat.mod_eq_of_lt h.block_lt))⟩

end StakeLimitState

namespace StakingState

/-! ## Runs -/

/-- The stored word, the block and what the submits accepted so far. -/
structure Run where
  slotValue : BitVec 256
  blockNumber : Nat
  accepted : Log

/-- Right after the limit was set to `M` with the increase `I`, whatever was stored before. -/
def JustSet (M I : Nat) (r : Run) : Prop :=
  r.accepted = [] ∧ r.blockNumber < 2 ^ 32 ∧
    ∃ canPerform slotValue, setStakingLimit canPerform slotValue r.blockNumber M I = .ok r.slotValue

/-- The calls at a later block, or at the same one. The rest of the pool may be anything. -/
inductive Step : Run → Run → Prop where
  | submit {r : Run} {s s' : Pool} {env : Env} {b sharesAmount : Nat} {slotValue : BitVec 256} :
      r.blockNumber ≤ b → b < 2 ^ 32 →
      StakingState.submit s r.slotValue env b = .ok (s', slotValue, sharesAmount) →
      Step r ⟨slotValue, b, r.accepted ++ [(b, env.value)]⟩
  | pauseStaking {r : Run} {b : Nat} {canPerform : Bool} {slotValue : BitVec 256} :
      r.blockNumber ≤ b → b < 2 ^ 32 →
      StakingState.pauseStaking canPerform r.slotValue b = .ok slotValue →
      Step r ⟨slotValue, b, r.accepted⟩
  | resumeStaking {r : Run} {b : Nat} {canPerform hasInitialized : Bool} {slotValue : BitVec 256} :
      r.blockNumber ≤ b → b < 2 ^ 32 →
      StakingState.resumeStaking canPerform hasInitialized r.slotValue b = .ok slotValue →
      Step r ⟨slotValue, b, r.accepted⟩

/-- The stored limit is a limiter, with what it accepted as its log. -/
structure Limits (M I : Nat) (r : Run) : Prop where
  limitSet : LimitSet M I (getStorageStakeLimitStruct r.slotValue) r.blockNumber
  limited : Limited M (incPerBlock M I) r.accepted r.blockNumber
    ((getStorageStakeLimitStruct r.slotValue).level r.blockNumber)

variable {M I : Nat} {r r' : Run} {slotValue slotValue' : BitVec 256} {b : Nat}

/-- A limit that is set survives being stored and loaded. -/
theorem Limits.of_stored {data : StakeLimitState} {accepted : Log} (h : LimitSet M I data b)
    (hlimited : Limited M (incPerBlock M I) accepted b (data.level b)) :
    Limits M I ⟨data.setStorageStakeLimitStruct, b, accepted⟩ := by
  have hload := getStorage_setStorage h.fits
  refine ⟨?_, ?_⟩
  · show LimitSet M I (getStorageStakeLimitStruct data.setStorageStakeLimitStruct) b
    rw [hload]
    exact h
  · show Limited _ _ _ _
      ((getStorageStakeLimitStruct data.setStorageStakeLimitStruct).level b)
    rw [hload]
    exact hlimited

theorem Limits.wait (h : Limits M I r) (hle : r.blockNumber ≤ b) (hlt : b < 2 ^ 32) :
    Limits M I { r with blockNumber := b } where
  limitSet := h.limitSet.later hle hlt
  limited := h.limited.wait hle (h.limitSet.level_later hle hlt)
    (h.limitSet.later hle hlt).level_le

theorem Limits.step (h : Limits M I r) (hstep : Step r r') : Limits M I r' := by
  cases hstep with
  | @submit s s' env b sharesAmount slotValue hle hlt hsubmit =>
    have hnow := h.wait hle hlt
    simp only [StakingState.submit, Pool.submit, bind_eq_ok, pure_eq_ok, Prod.mk.injEq] at hsubmit
    obtain ⟨⟨s₁, n⟩, ⟨_, _, data, hconsume, _, _, _, _, _, _, _, _, rfl, _⟩, rfl, rfl, _⟩ := hsubmit
    obtain ⟨hamount, hset, hlevel⟩ := hnow.limitSet.consume hconsume
    refine Limits.of_stored hset ?_
    rw [hlevel]
    exact hnow.limited.admit hamount
  | @pauseStaking b canPerform slotValue hle hlt hpause =>
    have hnow := h.wait hle hlt
    simp only [StakingState.pauseStaking, bind_eq_ok, require_eq_ok, pure_eq_ok] at hpause
    obtain ⟨_, _, rfl⟩ := hpause
    exact Limits.of_stored hnow.limitSet.setStakeLimitPauseState
      (hnow.limited.lower hnow.limitSet.level_setStakeLimitPauseState)
  | @resumeStaking b canPerform hasInitialized slotValue hle hlt hresume =>
    have hnow := h.wait hle hlt
    simp only [StakingState.resumeStaking, bind_eq_ok, require_eq_ok, pure_eq_ok] at hresume
    obtain ⟨_, _, _, _, rfl⟩ := hresume
    exact Limits.of_stored hnow.limitSet.setStakeLimitPauseState
      (hnow.limited.lower hnow.limitSet.level_setStakeLimitPauseState)

theorem Limits.init (h : JustSet M I r) : Limits M I r := by
  obtain ⟨haccepted, hlt, canPerform, slotValue, hset⟩ := h
  obtain ⟨stored, blockNumber, accepted⟩ := r
  subst haccepted
  simp only [setStakingLimit, bind_eq_ok, require_eq_ok, pure_eq_ok] at hset
  obtain ⟨_, _, data, hset, rfl⟩ := hset
  have hlimitSet := setStakingLimit_ok_cases hset hlt
  exact Limits.of_stored hlimitSet (.start hlimitSet.level_le)

theorem limits_of_reachable (hr : Reachable (JustSet M I) Step r) : Limits M I r :=
  hr.invariant (fun _ h => Limits.init h) fun _ _ h hstep => h.step hstep

/-! ## The main result -/

/--
**The stake limit holds over every window**, with the increase per block that is left of `I` after
the number of blocks to the maximum was rounded down; this is `I` itself if `I` divides `M`.
-/
theorem accepted_le (hr : Reachable (JustSet M I) Step r) (hwindow : b ≤ b') :
    admitted r.accepted b b' ≤ M + (b' - b) * (M / (M / I)) ∧
    (I ∣ M → admitted r.accepted b b' ≤ M + (b' - b) * I) := by
  have hlimits := limits_of_reachable hr
  have hbound := hlimits.limited.window b b' hwindow
  refine ⟨hbound, fun hdvd => ?_⟩
  rw [incPerBlock_of_dvd hlimits.limitSet.max_pos hdvd] at hbound
  exact hbound

/-! A limit of 10 with an increase of 4 grows to its maximum in 2 blocks, so by 5 in each. -/

theorem exampleLimitTime_pos : 0 < 60 := by decide

def exampleSlot : BitVec 256 :=
  result (setStakingLimit true 0 5 10 4) (by decide +kernel)

def exampleResumed : BitVec 256 :=
  result (resumeStaking true true exampleSlot 5) (by decide +kernel)

/-- Account 100 submits. -/
def exampleStakingEnv (value : Nat) : Env := ⟨100, value, 60, exampleLimitTime_pos⟩

def exampleDrained : Pool × BitVec 256 × Nat :=
  result (submit Pool.exampleStart exampleResumed (exampleStakingEnv 10) 5) (by decide +kernel)

def exampleRegrown : Pool × BitVec 256 × Nat :=
  result (submit Pool.exampleStart exampleDrained.2.1 (exampleStakingEnv 5) 6) (by decide +kernel)

/-- The limit is used up in one block, and what has regenerated is used up in the next. -/
theorem reachable_exampleRegrown :
    Reachable (JustSet 10 4) Step ⟨exampleRegrown.2.1, 6, [(5, 10), (6, 5)]⟩ := by
  have hset : Reachable (JustSet 10 4) Step ⟨exampleSlot, 5, []⟩ :=
    .init ⟨rfl, by decide, true, 0, eq_ok_result _ (by decide +kernel)⟩
  have hresumed : Reachable (JustSet 10 4) Step ⟨exampleResumed, 5, []⟩ :=
    hset.step (.resumeStaking (Nat.le_refl 5) (by decide) (eq_ok_result _ (by decide +kernel)))
  have hdrain : submit Pool.exampleStart exampleResumed (exampleStakingEnv 10) 5
      = .ok exampleDrained := eq_ok_result _ (by decide +kernel)
  have hregrow : submit Pool.exampleStart exampleDrained.2.1 (exampleStakingEnv 5) 6
      = .ok exampleRegrown := eq_ok_result _ (by decide +kernel)
  rw [← Prod.mk.eta (p := exampleDrained), ← Prod.mk.eta (p := exampleDrained.2)] at hdrain
  rw [← Prod.mk.eta (p := exampleRegrown), ← Prod.mk.eta (p := exampleRegrown.2)] at hregrow
  have hfirst := @Step.submit ⟨exampleResumed, 5, []⟩ Pool.exampleStart exampleDrained.1
    (exampleStakingEnv 10) 5 exampleDrained.2.2 exampleDrained.2.1 (Nat.le_refl 5) (by decide) hdrain
  have hsecond := @Step.submit ⟨exampleDrained.2.1, 5, [(5, 10)]⟩ Pool.exampleStart
    exampleRegrown.1 (exampleStakingEnv 5) 6 exampleRegrown.2.2 exampleRegrown.2.1 (by decide)
    (by decide) hregrow
  exact (hresumed.step hfirst).step hsecond

theorem accepted_le_regrown :
    admitted [(5, 10), (6, 5)] 5 6 ≤ 10 + (6 - 5) * (10 / (10 / 4)) :=
  (accepted_le reachable_exampleRegrown (by decide : 5 ≤ 6)).1

/-- With the increase that was asked for, the bound fails: 15 is more than 10 and 4. -/
theorem not_accepted_le_increase : ¬∀ (M I : Nat) (r : Run) (b₁ b₂ : Nat), 0 < I →
    Reachable (JustSet M I) Step r → b₁ ≤ b₂ →
    admitted r.accepted b₁ b₂ ≤ M + (b₂ - b₁) * I := by
  intro hall
  have hbound := hall 10 4 _ 5 6 (by decide) reachable_exampleRegrown (by decide)
  exact absurd hbound (by decide)

end StakingState

end Catalist
