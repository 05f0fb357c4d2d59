import Catalist.Pool.BACE
import Catalist.Pool.SanityChecker

/-!
# The contracts of the pool

The storage of `Catalist.sol` together with that of the contracts it works with: the burner
(`Burner.sol`), the two vaults, of which only the balances matter, the withdrawal queue and the
wrapped token (`WbACE.sol`, an ERC20 token). A function of one contract takes the whole system and
returns it changed, or reverts.

The staking router answers two questions of the pool and takes deposits; its answers are
arguments of the functions that ask. A call to it that reverts, or one of the receiver of rebase
notifications, reverts the whole call, so only the calls that go through are modelled.
-/

namespace Catalist

open Solidity

/-- The size of a deposit, 32 ether. -/
def DEPOSIT_SIZE : Nat := 32 * 10 ^ 18

def MIN_BACE_WITHDRAWAL_AMOUNT : Nat := 100

def MAX_BACE_WITHDRAWAL_AMOUNT : Nat := 1000 * 10 ^ 18

/-- The value of `bunkerModeSinceTimestamp` while the mode is off. -/
def BUNKER_MODE_DISABLED_TIMESTAMP : Nat := 2 ^ 256 - 1

/-- The addresses of the other contracts. -/
structure Locator where
  accountingOracle : Address
  burner : Address
  depositSecurityModule : Address
  treasury : Address
  wbACE : Address
  withdrawalQueue : Address
  burner_ne_withdrawalQueue : burner ≠ withdrawalQueue
  wbACE_ne_withdrawalQueue : wbACE ≠ withdrawalQueue

/-- `StakeLimitState.Data` -/
structure StakeLimitState where
  prevStakeBlockNumber : Nat
  prevStakeLimit : Nat
  maxStakeLimitGrowthBlocks : Nat
  maxStakeLimit : Nat
deriving DecidableEq, Repr

structure Burner where
  coverSharesBurnRequested : Nat
  nonCoverSharesBurnRequested : Nat
  totalCoverSharesBurnt : Nat
  totalNonCoverSharesBurnt : Nat
  /-- `REQUEST_BURN_SHARES_ROLE` -/
  requestBurnSharesRole : Address → Bool

/-- The wrapped token. -/
structure WbACE where
  balances : Address → Nat
  allowances : Address → Address → Nat
  totalSupply : Nat

/-- The pool with the contracts around it. -/
structure Pool where
  locator : Locator
  token : BACE
  bufferedAce : Nat
  depositedValidators : Nat
  clBalance : Nat
  clValidators : Nat
  totalELRewardsCollected : Nat
  stakeLimit : StakeLimitState
  /-- `address(this).balance` of the pool -/
  balance : Nat
  elRewardsVaultBalance : Nat
  withdrawalVaultBalance : Nat
  burner : Burner
  queue : WithdrawalQueue
  /-- of the withdrawal queue -/
  bunkerModeSinceTimestamp : Nat
  wbACE : WbACE
  limits : LimitsList

/-! ## The stake limit -/

namespace StakeLimitState

variable (data : StakeLimitState)

def isStakingPaused : Bool := data.prevStakeBlockNumber = 0

def isStakingLimitSet : Bool := data.maxStakeLimit ≠ 0

/-- `calculateCurrentStakeLimit`; the compiler of the time does not check arithmetic. -/
def calculateCurrentStakeLimit (blockNumber : Nat) : Nat :=
  let stakeLimitIncPerBlock :=
    if data.maxStakeLimitGrowthBlocks ≠ 0 then data.maxStakeLimit / data.maxStakeLimitGrowthBlocks
    else 0
  let blocksPassed := (blockNumber + 2 ^ 256 - data.prevStakeBlockNumber) % 2 ^ 256
  let projectedLimit := (data.prevStakeLimit + blocksPassed * stakeLimitIncPerBlock) % 2 ^ 256
  min projectedLimit data.maxStakeLimit

def updatePrevStakeLimit (blockNumber newPrevStakeLimit : Nat) :
    Call PoolError StakeLimitState := do
  ensure (newPrevStakeLimit < 2 ^ 96)
  ensure (data.prevStakeBlockNumber ≠ 0)
  return { data with
    prevStakeLimit := newPrevStakeLimit
    prevStakeBlockNumber := blockNumber % 2 ^ 32 }

/-- The checks of `_submit` for an amount, and the limit that it leaves. -/
def consume (blockNumber amount : Nat) : Call PoolError StakeLimitState := do
  require (data.isStakingPaused = false) .stakingPaused
  if data.isStakingLimitSet = true then do
    let currentStakeLimit := data.calculateCurrentStakeLimit blockNumber
    require (amount ≤ currentStakeLimit) .stakeLimit
    data.updatePrevStakeLimit blockNumber (currentStakeLimit - amount)
  else return data

end StakeLimitState

/-! ## The wrapped token -/

namespace WbACE

variable (w : WbACE)

/-- `transferFrom`, called by `caller`. -/
def transferFrom (caller sender recipient : Address) (amount : Nat) : Call PoolError WbACE := do
  require (sender ≠ 0) .transferFromZeroAddr
  require (recipient ≠ 0) .transferToZeroAddr
  require (amount ≤ w.balances sender) .transferAmountExceedsBalance
  let balances := Function.update w.balances sender (w.balances sender - amount)
  let recipientBalance ← checkedAdd 256 (balances recipient) amount
  require (amount ≤ w.allowances sender caller) .transferAmountExceedsAllowance
  require (caller ≠ 0) .approveToZeroAddr
  return { w with
    balances := Function.update balances recipient recipientBalance
    allowances := Function.update w.allowances sender
      (Function.update (w.allowances sender) caller (w.allowances sender caller - amount)) }

/-- `_burn` -/
def burn (account : Address) (amount : Nat) : Call PoolError WbACE := do
  require (account ≠ 0) .burnFromZeroAddr
  require (amount ≤ w.balances account) .burnAmountExceedsBalance
  let totalSupply ← checkedSub w.totalSupply amount
  return { w with
    balances := Function.update w.balances account (w.balances account - amount)
    totalSupply := totalSupply }

end WbACE

namespace Pool

variable (s : Pool)

/-! ## Total pooled ace -/

/-- `_getTransientBalance` -/
def getTransientBalance : Call PoolError Nat := do
  ensure (s.clValidators ≤ s.depositedValidators)
  checkedMul 256 (s.depositedValidators - s.clValidators) DEPOSIT_SIZE

/-- `_getTotalPooledAce` -/
def getTotalPooledAce : Call PoolError Nat := do
  let known ← checkedAdd 256 s.bufferedAce s.clBalance
  let transient ← s.getTransientBalance
  checkedAdd 256 known transient

/-- The total pooled ace as a number. -/
def totalPooledAce : Nat :=
  s.bufferedAce + s.clBalance + (s.depositedValidators - s.clValidators) * DEPOSIT_SIZE

theorem getTotalPooledAce_eq_ok {s : Pool} {P : Nat} :
    s.getTotalPooledAce = .ok P ↔
      s.clValidators ≤ s.depositedValidators ∧ s.totalPooledAce < 2 ^ 256 ∧ P = s.totalPooledAce := by
  simp only [getTotalPooledAce, getTransientBalance, totalPooledAce, bind_eq_ok, checkedAdd_eq_ok,
    checkedMul_eq_ok, ensure_eq_ok]
  constructor
  · rintro ⟨_, ⟨_, rfl⟩, _, ⟨_, hle, _, rfl⟩, hbound, rfl⟩
    exact ⟨hle, hbound, rfl⟩
  · rintro ⟨hle, hbound, rfl⟩
    exact ⟨_, ⟨by omega, rfl⟩, _, ⟨(), hle, by omega, rfl⟩, hbound, rfl⟩

/-! ## The burner -/

/-- `_requestBurn` for shares that do not cover losses -/
def requestBurn (sharesAmount : Nat) : Call PoolError Pool := do
  require (sharesAmount ≠ 0) .zeroBurnAmount
  let requested ← checkedAdd 256 s.burner.nonCoverSharesBurnRequested sharesAmount
  return { s with burner := { s.burner with nonCoverSharesBurnRequested := requested } }

/-- `requestBurnShares`, called by `caller`. -/
def requestBurnShares (caller fromAddr : Address) (sharesAmountToBurn : Nat) :
    Call PoolError Pool := do
  require (s.burner.requestBurnSharesRole caller = true) (.missingRequestBurnSharesRole caller)
  let (token, _) ← s.token.transferSharesFrom s.getTotalPooledAce s.locator.burner fromAddr
    s.locator.burner sharesAmountToBurn
  let s := { s with token := token }
  s.requestBurn sharesAmountToBurn

/-- The part of `commitSharesToBurn` for shares that cover losses; it returns how many there are. -/
def commitCoverShares (sharesToBurn : Nat) : Call PoolError (Pool × Nat) := do
  if 0 < s.burner.coverSharesBurnRequested then do
    let sharesToBurnNowForCover := min sharesToBurn s.burner.coverSharesBurnRequested
    let total ← checkedAdd 256 s.burner.totalCoverSharesBurnt sharesToBurnNowForCover
    let _ ← s.token.getPooledAceByShares s.getTotalPooledAce sharesToBurnNowForCover
    let requested ← checkedSub s.burner.coverSharesBurnRequested sharesToBurnNowForCover
    return ({ s with
      burner := { s.burner with
        totalCoverSharesBurnt := total
        coverSharesBurnRequested := requested } }, sharesToBurnNowForCover)
  else return (s, 0)

/-- The part of `commitSharesToBurn` for the other shares. -/
def commitNonCoverShares (sharesToBurn sharesToBurnNow : Nat) : Call PoolError (Pool × Nat) := do
  if 0 < s.burner.nonCoverSharesBurnRequested ∧ sharesToBurnNow < sharesToBurn then do
    let sharesToBurnNowForNonCover :=
      min (sharesToBurn - sharesToBurnNow) s.burner.nonCoverSharesBurnRequested
    let total ← checkedAdd 256 s.burner.totalNonCoverSharesBurnt sharesToBurnNowForNonCover
    let _ ← s.token.getPooledAceByShares s.getTotalPooledAce sharesToBurnNowForNonCover
    let requested ← checkedSub s.burner.nonCoverSharesBurnRequested sharesToBurnNowForNonCover
    let sharesToBurnNow ← checkedAdd 256 sharesToBurnNow sharesToBurnNowForNonCover
    return ({ s with
      burner := { s.burner with
        totalNonCoverSharesBurnt := total
        nonCoverSharesBurnRequested := requested } }, sharesToBurnNow)
  else return (s, sharesToBurnNow)

/-- `commitSharesToBurn`, called by the pool. -/
def commitSharesToBurn (sharesToBurn : Nat) : Call PoolError Pool := do
  if sharesToBurn = 0 then return s
  else do
    let burnAmount ←
      checkedAdd 256 s.burner.coverSharesBurnRequested s.burner.nonCoverSharesBurnRequested
    require (sharesToBurn ≤ burnAmount) (.burnAmountExceedsActual sharesToBurn burnAmount)
    let (s, sharesToBurnNow) ← s.commitCoverShares sharesToBurn
    let (s, sharesToBurnNow) ← s.commitNonCoverShares sharesToBurn sharesToBurnNow
    ensure (sharesToBurnNow = sharesToBurn)
    return s

/-! ## The vaults -/

/-- `receiveELRewards`, called by the rewards vault. -/
def receiveELRewards (value : Nat) : Call PoolError Pool := do
  let total ← checkedAdd 256 s.totalELRewardsCollected value
  return { s with balance := s.balance + value, totalELRewardsCollected := total }

/-- `withdrawRewards`, called by the pool: at most `maxAmount` of the balance is sent. -/
def withdrawRewards (maxAmount : Nat) : Call PoolError (Pool × Nat) := do
  let amount := if maxAmount < s.elRewardsVaultBalance then maxAmount else s.elRewardsVaultBalance
  if 0 < amount then do
    let s ← { s with elRewardsVaultBalance := s.elRewardsVaultBalance - amount }.receiveELRewards
      amount
    return (s, amount)
  else return (s, amount)

/-- `withdrawWithdrawals`, called by the pool; `receiveWithdrawals` only takes the value. -/
def withdrawWithdrawals (amount : Nat) : Call PoolError Pool := do
  require (amount ≠ 0) .zeroAmount
  require (amount ≤ s.withdrawalVaultBalance) (.notEnoughAce amount s.withdrawalVaultBalance)
  return { s with
    withdrawalVaultBalance := s.withdrawalVaultBalance - amount
    balance := s.balance + amount }

/-! ## Withdrawal requests -/

/-- `_checkWithdrawalRequestAmount` -/
def checkWithdrawalRequestAmount (amountOfBACE : Nat) : Call PoolError Unit := do
  require (MIN_BACE_WITHDRAWAL_AMOUNT ≤ amountOfBACE) (.requestAmountTooSmall amountOfBACE)
  require (amountOfBACE ≤ MAX_BACE_WITHDRAWAL_AMOUNT) (.requestAmountTooLarge amountOfBACE)

/-- The end of both request functions: the shares of the amount are recorded as `uint128`. -/
def enqueueRequest (env : Env) (amountOfBACE : Nat) (owner : Address) :
    Call PoolError (Pool × Nat) := do
  let amountOfShares ← s.token.getSharesByPooledAce s.getTotalPooledAce amountOfBACE
  let (queue, requestId) ← within .queue
    (s.queue.enqueue env (amountOfBACE % 2 ^ 128) (amountOfShares % 2 ^ 128) owner)
  return ({ s with queue := queue }, requestId)

/-- `_requestWithdrawal` -/
def requestWithdrawal (env : Env) (amountOfBACE : Nat) (owner : Address) :
    Call PoolError (Pool × Nat) := do
  let token ← s.token.transferFrom s.getTotalPooledAce s.locator.withdrawalQueue env.sender
    s.locator.withdrawalQueue amountOfBACE
  { s with token := token }.enqueueRequest env amountOfBACE owner

/-- `unwrap`, called by `caller`; it also returns the amount of bACE. -/
def unwrap (caller : Address) (amountOfWbACE : Nat) : Call PoolError (Pool × Nat) := do
  require (0 < amountOfWbACE) .zeroAmountUnwrapNotAllowed
  let amountOfBACE ← s.token.getPooledAceByShares s.getTotalPooledAce amountOfWbACE
  let wbACE ← s.wbACE.burn caller amountOfWbACE
  let token ← s.token.transfer s.getTotalPooledAce s.locator.wbACE caller amountOfBACE
  return ({ s with wbACE := wbACE, token := token }, amountOfBACE)

/-- `_requestWithdrawalWbACE` -/
def requestWithdrawalWbACE (env : Env) (amountOfWbACE : Nat) (owner : Address) :
    Call PoolError (Pool × Nat) := do
  let wbACE ← s.wbACE.transferFrom s.locator.withdrawalQueue env.sender s.locator.withdrawalQueue
    amountOfWbACE
  let (s, amountOfBACE) ← { s with wbACE := wbACE }.unwrap s.locator.withdrawalQueue amountOfWbACE
  checkWithdrawalRequestAmount amountOfBACE
  s.enqueueRequest env amountOfBACE owner

/-- The loop of `requestWithdrawals`. -/
def requestWithdrawalsLoop (env : Env) (owner : Address) :
    Pool → List Nat → Call PoolError (Pool × List Nat)
  | s, [] => return (s, [])
  | s, amount :: amounts => do
    checkWithdrawalRequestAmount amount
    let (s, requestId) ← s.requestWithdrawal env amount owner
    let (s, requestIds) ← requestWithdrawalsLoop env owner s amounts
    return (s, requestId :: requestIds)

/-- The loop of `requestWithdrawalsWbACE`. -/
def requestWithdrawalsWbACELoop (env : Env) (owner : Address) :
    Pool → List Nat → Call PoolError (Pool × List Nat)
  | s, [] => return (s, [])
  | s, amount :: amounts => do
    let (s, requestId) ← s.requestWithdrawalWbACE env amount owner
    let (s, requestIds) ← requestWithdrawalsWbACELoop env owner s amounts
    return (s, requestId :: requestIds)

/-- `requestWithdrawals` -/
def requestWithdrawals (env : Env) (amounts : List Nat) (owner : Address) :
    Call PoolError (Pool × List Nat) := do
  require (s.queue.isPaused env = false) (.queue .resumedExpected)
  requestWithdrawalsLoop env (if owner = 0 then env.sender else owner) s amounts

/-- `requestWithdrawalsWbACE` -/
def requestWithdrawalsWbACE (env : Env) (amounts : List Nat) (owner : Address) :
    Call PoolError (Pool × List Nat) := do
  require (s.queue.isPaused env = false) (.queue .resumedExpected)
  requestWithdrawalsWbACELoop env (if owner = 0 then env.sender else owner) s amounts

end Pool

end Catalist
