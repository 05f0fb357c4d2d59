import Catalist.Pool.Accounting
import Catalist.Router.Allocation

/-!
# Deposits through the router

`deposit` of `StakingRouter.sol` with `_makeBeaconChainDeposits32ACE` of `BeaconChainDepositor.sol`,
and `deposit` of `Catalist.sol` with its calls to the router (`DepositSystem.deposit`).
-/

namespace Catalist

open Solidity Finset

namespace StakingRouter

variable {ε ρ : Type} (s : StakingRouter) (callees : RouterCallees ε ρ)

/-! ## The deposit contract -/

/-- The loop of `_makeBeaconChainDeposits32ACE`, over the keys that are left. -/
def depositLoop (withdrawalCredentials publicKeysBatch signaturesBatch : Bytes) :
    List Nat → Nat → ρ → Call (RouterError ε) (Nat × ρ)
  | [], balance, world => return (balance, world)
  | i :: is, balance, world => do
    let publicKey := (publicKeysBatch.drop (i * PUBLIC_KEY_LENGTH)).take PUBLIC_KEY_LENGTH
    let signature := (signaturesBatch.drop (i * SIGNATURE_LENGTH)).take SIGNATURE_LENGTH
    require (DEPOSIT_SIZE ≤ balance) .notEnoughBalance
    let world ← within .callee (callees.deposit world publicKey withdrawalCredentials signature)
    depositLoop withdrawalCredentials publicKeysBatch signaturesBatch is (balance - DEPOSIT_SIZE)
      world

/-- `_makeBeaconChainDeposits32ACE`; it returns the balance that is left. -/
def makeBeaconChainDeposits32ACE (keysCount : Nat)
    (withdrawalCredentials publicKeysBatch signaturesBatch : Bytes) (balance : Nat) (world : ρ) :
    Call (RouterError ε) (Nat × ρ) := do
  let keysLength ← checkedMul 256 PUBLIC_KEY_LENGTH keysCount
  require (publicKeysBatch.length = keysLength)
    (.invalidPublicKeysBatchLength publicKeysBatch.length keysLength)
  let signaturesLength ← checkedMul 256 SIGNATURE_LENGTH keysCount
  require (signaturesBatch.length = signaturesLength)
    (.invalidSignaturesBatchLength signaturesBatch.length signaturesLength)
  depositLoop callees withdrawalCredentials publicKeysBatch signaturesBatch (List.range keysCount)
    balance world

/-- `deposit`, a payable call: its value joins the balance before the body runs. -/
def deposit (env : RouterEnv) (depositsCount stakingModuleId : Nat) (depositCalldata : Bytes)
    (world : ρ) : Call (RouterError ε) (StakingRouter × ρ) := do
  let s : StakingRouter := { s with balance := s.balance + env.value }
  require (env.sender = s.catalist) .appAuthCatalistFailed
  require (s.withdrawalCredentials ≠ 0) .emptyWithdrawalsCredentials
  let index ← s.getStakingModuleIndexById stakingModuleId
  let stakingModule := s.stakingModules index
  require (stakingModule.status = .active) .stakingModuleNotActive
  let s := s.setStakingModule index { stakingModule with
    lastDepositAt := env.timestamp % 2 ^ 64
    lastDepositBlock := env.blockNumber }
  let depositsValue ← checkedMul 256 depositsCount DEPOSIT_SIZE
  require (env.value = depositsValue) (.invalidDepositsValue env.value depositsCount)
  if 0 < depositsCount then do
    let (world, publicKeysBatch, signaturesBatch) ← within .callee
      (callees.obtainDepositData world stakingModule.stakingModuleAddress depositsCount
        depositCalldata)
    let (aceBalanceAfterDeposits, world) ← makeBeaconChainDeposits32ACE callees depositsCount
      (ByteBuffer.bytesOfWord s.withdrawalCredentials) publicKeysBatch signaturesBatch s.balance
      world
    let deposited ← checkedSub s.balance aceBalanceAfterDeposits
    ensure (deposited = env.value)
    return ({ s with balance := aceBalanceAfterDeposits }, world)
  else return (s, world)

/-! ## What a deposit does -/

variable {s callees} {env : RouterEnv} {n id : Nat} {depositCalldata : Bytes} {world world' : ρ}
  {s' : StakingRouter}

/-- The module at an index, after a deposit. -/
def noted (m : StakingModule) (env : RouterEnv) : StakingModule :=
  { m with lastDepositAt := env.timestamp % 2 ^ 64, lastDepositBlock := env.blockNumber }

/-- All the value is deposited: the balance of the router is what it was. -/
theorem deposit_ok_cases (h : s.deposit callees env n id depositCalldata world = .ok (s', world')) :
    ∃ index, s.stakingModuleIndicesOneBased id = index + 1 ∧
      (s.stakingModules index).status = .active ∧ env.value = n * DEPOSIT_SIZE ∧
      s' = s.setStakingModule index (noted (s.stakingModules index) env) ∧
      (n = 0 → world' = world) ∧
      (0 < n → ∃ world₁ keys signatures, callees.obtainDepositData world
          (s.stakingModules index).stakingModuleAddress n depositCalldata
          = .ok (world₁, keys, signatures) ∧
        ∃ balance, depositLoop callees (ByteBuffer.bytesOfWord s.withdrawalCredentials) keys
          signatures (List.range n) (s.balance + env.value) world₁ = .ok (balance, world')) := by
  simp only [deposit, getStakingModuleIndexById, bind_eq_ok, require_eq_ok, pure_eq_ok,
    checkedMul_eq_ok] at h
  obtain ⟨_, hsender, _, hcredentials, index, ⟨_, hid, rfl⟩, _, hstatus, _, ⟨-, rfl⟩, _, hvalue, h⟩ := h
  refine ⟨_, (Nat.sub_add_cancel (Nat.pos_of_ne_zero hid)).symm, hstatus, hvalue, ?_⟩
  split at h
  · next hpos =>
    simp only [bind_eq_ok, within_eq_ok, pure_eq_ok, checkedSub_eq_ok, ensure_eq_ok,
      Prod.mk.injEq] at h
    obtain ⟨⟨world₁, keys, signatures⟩, hobtain, ⟨balance, _⟩, hdeposits, _, ⟨hle, rfl⟩, _, hspent,
      rfl, rfl⟩ := h
    simp only [makeBeaconChainDeposits32ACE, bind_eq_ok, require_eq_ok, checkedMul_eq_ok] at hdeposits
    obtain ⟨_, ⟨-, rfl⟩, _, -, _, ⟨-, rfl⟩, _, -, hloop⟩ := hdeposits
    have hbalance : balance = s.balance := by
      change balance ≤ s.balance + env.value at hle
      change s.balance + env.value - balance = env.value at hspent
      omega
    refine ⟨?_, fun hzero => absurd hzero hpos.ne',
      fun _ => ⟨world₁, keys, signatures, hobtain, balance, hloop⟩⟩
    rw [hbalance]
    rfl
  · next hnone =>
    have hzero : n = 0 := by omega
    subst hzero
    simp only [pure_eq_ok, Prod.mk.injEq] at h
    obtain ⟨rfl, rfl⟩ := h
    rw [Nat.zero_mul] at hvalue
    refine ⟨?_, fun _ => rfl, fun hpos => absurd hpos (Nat.lt_irrefl 0)⟩
    rw [hvalue]
    rfl

end StakingRouter

/-! ## Deposits of the pool -/

inductive DepositError (ε : Type) where
  | pool (e : PoolError)
  | router (e : RouterError ε)
deriving DecidableEq, Repr

/-- The pool, the router, and the contracts that the router calls. -/
structure DepositSystem (ρ : Type) where
  pool : Pool
  router : StakingRouter
  world : ρ

namespace DepositSystem

variable {ε ρ : Type} (x : DepositSystem ρ) (callees : RouterCallees ε ρ)

/-- `deposit` of the pool, with the calls to the router. -/
def deposit (env : RouterEnv) (maxDepositsCount stakingModuleId : Nat) (depositCalldata : Bytes) :
    Call (DepositError ε) (DepositSystem ρ) := do
  let s := x.pool
  within .pool (require (env.sender = s.locator.depositSecurityModule) .appAuthDsmFailed)
  within .pool (require (s.canDeposit = true) .canNotDeposit)
  let depositableAce ← within .pool s.getDepositableAce
  let maxCount ← within .router
    (x.router.getStakingModuleMaxDepositsCount callees x.world stakingModuleId depositableAce)
  let depositsCount := min maxDepositsCount maxCount
  let (s, depositsValue) ← within .pool (s.unbuffer depositsCount)
  within .pool (require (depositsValue ≤ s.balance) .notEnoughBalance)
  let s := { s with balance := s.balance - depositsValue }
  let (router, world) ← within .router (x.router.deposit callees
    { env with sender := s.token.self, value := depositsValue } depositsCount stakingModuleId
    depositCalldata x.world)
  return { pool := s, router := router, world := world }

variable {x callees} {x' : DepositSystem ρ} {env : RouterEnv} {maxDepositsCount id : Nat}
  {depositCalldata : Bytes}

/-- A deposit is one of the pool alone, for the answer that the router gives, and one of the router. -/
theorem deposit_ok_cases (h : x.deposit callees env maxDepositsCount id depositCalldata = .ok x') :
    ∃ depositableAce maxCount, x.pool.getDepositableAce = .ok depositableAce ∧
      x.router.getStakingModuleMaxDepositsCount callees x.world id depositableAce = .ok maxCount ∧
      x.pool.deposit env.toEnv maxDepositsCount (fun _ => maxCount) = .ok x'.pool ∧
      x'.pool = { x.pool with
        bufferedAce := x.pool.bufferedAce - min maxDepositsCount maxCount * DEPOSIT_SIZE
        depositedValidators := x.pool.depositedValidators + min maxDepositsCount maxCount
        balance := x.pool.balance - min maxDepositsCount maxCount * DEPOSIT_SIZE } ∧
      min maxDepositsCount maxCount * DEPOSIT_SIZE ≤ x.pool.bufferedAce ∧
      min maxDepositsCount maxCount * DEPOSIT_SIZE ≤ x.pool.balance ∧
      x.router.deposit callees
        { env with
          sender := x.pool.token.self
          value := min maxDepositsCount maxCount * DEPOSIT_SIZE }
        (min maxDepositsCount maxCount) id depositCalldata x.world
        = .ok (x'.router, x'.world) := by
  simp only [deposit, bind_eq_ok, within_eq_ok, require_eq_ok, pure_eq_ok] at h
  obtain ⟨_, hsender, _, hcan, depositableAce, hdepositable, maxCount, hmax, ⟨s₁, value⟩, hunbuffer,
    _, hbalance, ⟨router, world⟩, hrouter, rfl⟩ := h
  have hpool : x.pool.deposit env.toEnv maxDepositsCount (fun _ => maxCount)
      = .ok { s₁ with balance := s₁.balance - value } := by
    simp only [Pool.deposit, require_of hsender, require_of hcan, hdepositable, hunbuffer,
      require_of hbalance, ok_bind]
    rfl
  obtain ⟨rfl, hbuffered, rfl⟩ := Pool.unbuffer_ok_cases hunbuffer
  exact ⟨depositableAce, maxCount, hdepositable, hmax, hpool, rfl, hbuffered, hbalance, hrouter⟩

/-! ## What is kept -/

/-- The constants of the two contracts agree. -/
theorem depositSize_eq : StakingRouter.DEPOSIT_SIZE = DEPOSIT_SIZE := rfl

theorem getDepositableAce_ok_cases {s : Pool} {depositableAce : Nat}
    (h : s.getDepositableAce = .ok depositableAce) :
    ∃ reserve, s.queue.unfinalizedBACE = .ok reserve ∧ depositableAce = s.bufferedAce - reserve := by
  simp only [Pool.getDepositableAce, bind_eq_ok, within_eq_ok, pure_eq_ok] at h
  obtain ⟨reserve, hreserve, hdepositable⟩ := h
  refine ⟨reserve, hreserve, ?_⟩
  split at hdepositable
  · exact hdepositable.symm
  · omega

/-- The buffer keeps what the queue needs: the router divides by what the pool multiplies by. -/
theorem reserve_le_buffered (h : x.deposit callees env maxDepositsCount id depositCalldata = .ok x')
    (hn : x.pool.depositedValidators < x'.pool.depositedValidators) :
    ∃ reserve, x'.pool.queue.unfinalizedBACE = .ok reserve ∧ reserve ≤ x'.pool.bufferedAce := by
  obtain ⟨depositableAce, maxCount, hdepositable, hmax, -, hpool, hbuffered, -⟩ := deposit_ok_cases h
  obtain ⟨reserve, hreserve, rfl⟩ := getDepositableAce_ok_cases hdepositable
  have hle := StakingRouter.maxDepositsCount_le hmax
  rw [depositSize_eq] at hle
  rw [hpool] at hn ⊢
  refine ⟨reserve, hreserve, ?_⟩
  have hvalue : min maxDepositsCount maxCount * DEPOSIT_SIZE ≤ x.pool.bufferedAce - reserve := by
    refine le_trans (Nat.mul_le_mul_right _ ((Nat.min_le_right _ _).trans hle)) ?_
    exact Nat.div_mul_le_self _ _
  have hpos : 0 < min maxDepositsCount maxCount * DEPOSIT_SIZE := by
    have hcount : 0 < min maxDepositsCount maxCount := by
      change x.pool.depositedValidators
        < x.pool.depositedValidators + min maxDepositsCount maxCount at hn
      omega
    exact Nat.mul_pos hcount (by decide)
  change reserve ≤ x.pool.bufferedAce - min maxDepositsCount maxCount * DEPOSIT_SIZE
  omega

/-- A deposit moves ace from the buffer to the validators on their way. -/
theorem getTotalPooledAce_deposit
    (h : x.deposit callees env maxDepositsCount id depositCalldata = .ok x') {total : Nat}
    (htotal : x.pool.getTotalPooledAce = .ok total) : x'.pool.getTotalPooledAce = .ok total := by
  obtain ⟨_, maxCount, -, -, -, hpool, hbuffered, -⟩ := deposit_ok_cases h
  obtain ⟨hle, hfits, rfl⟩ := Pool.getTotalPooledAce_eq_ok.mp htotal
  have hsame : x'.pool.totalPooledAce = x.pool.totalPooledAce := by
    have hvalidators : x.pool.depositedValidators + min maxDepositsCount maxCount -
        x.pool.clValidators = x.pool.depositedValidators - x.pool.clValidators +
          min maxDepositsCount maxCount := by omega
    rw [hpool]
    unfold Pool.totalPooledAce
    simp only [hvalidators, Nat.add_mul]
    omega
  refine Pool.getTotalPooledAce_eq_ok.mpr ⟨?_, by rwa [hsame], hsame.symm⟩
  rw [hpool]
  exact hle.trans (Nat.le_add_right _ _)

end DepositSystem

/-! ## Limits of allocation and deposit -/

/--
**Allocation is within limits, and deposits keep the value.** For every router whose modules are
registered, the numbers of deposits that the modules may get for a value are together no more than
the value is enough for, and each is within the module's keys, its status and its share.

For every pool, a deposit of `n` validators leaves the total pooled ace as it was, counts the
validators, and leaves the queue's reserve in the buffer.
-/
theorem deposits_within_limits {ε ρ : Type} (callees : RouterCallees ε ρ) :
    (∀ (s : StakingRouter) (world : ρ) (v : Nat) (r : Nat → Nat), s.Registered →
      (∀ i < s.stakingModulesCount,
        s.getStakingModuleMaxDepositsCount callees world (s.stakingModules i).id v = .ok (r i)) →
      ∑ i ∈ range s.stakingModulesCount, r i ≤ v / DEPOSIT_SIZE ∧
      ∀ i < s.stakingModulesCount,
        callees.getStakingModuleSummary world (s.stakingModules i).stakingModuleAddress
          = .ok (s.summaryOf callees world i) ∧
        r i ≤ (s.summaryOf callees world i).depositableValidatorsCount ∧
        ((s.stakingModules i).status ≠ .active → r i = 0) ∧
        s.activeValidatorsCount callees world i + r i ≤
          max (s.activeValidatorsCount callees world i)
            ((s.stakingModules i).targetShare *
              (s.totalActiveValidators callees world + v / DEPOSIT_SIZE) / 10000)) ∧
    ∀ (x x' : DepositSystem ρ) (env : RouterEnv) (maxDepositsCount id : Nat) (calldata : Bytes),
      x.deposit callees env maxDepositsCount id calldata = .ok x' →
      ∃ depositableAce maxCount n, x.pool.getDepositableAce = .ok depositableAce ∧
        x.router.getStakingModuleMaxDepositsCount callees x.world id depositableAce = .ok maxCount ∧
        n = min maxDepositsCount maxCount ∧
        x'.pool.depositedValidators = x.pool.depositedValidators + n ∧
        x'.pool.balance + n * DEPOSIT_SIZE = x.pool.balance ∧ x'.router.balance = x.router.balance ∧
        (∀ total, x.pool.getTotalPooledAce = .ok total → x'.pool.getTotalPooledAce = .ok total) ∧
        (0 < n → ∃ reserve, x'.pool.queue.unfinalizedBACE = .ok reserve ∧
          reserve ≤ x'.pool.bufferedAce) := by
  refine ⟨fun s world v r hregistered h => ⟨?_, fun i hi => ?_⟩, ?_⟩
  · exact StakingRouter.sum_maxDepositsCount_le hregistered h
  · exact StakingRouter.maxDepositsCount_bounds hregistered hi (h i hi)
  · intro x x' env maxDepositsCount id calldata h
    obtain ⟨depositableAce, maxCount, hdepositable, hmax, -, hpool, hbuffered, hbalance, hrouter⟩ :=
      DepositSystem.deposit_ok_cases h
    obtain ⟨index, -, -, -, hrouter', -⟩ := StakingRouter.deposit_ok_cases hrouter
    refine ⟨depositableAce, maxCount, _, hdepositable, hmax, rfl, ?_, ?_, ?_,
      fun _ => DepositSystem.getTotalPooledAce_deposit h, fun hn => ?_⟩
    · rw [hpool]
    · rw [hpool]
      exact Nat.sub_add_cancel hbalance
    · rw [hrouter']
      rfl
    · refine DepositSystem.reserve_le_buffered h ?_
      rw [hpool]
      exact Nat.lt_add_of_pos_right hn

/-! Two modules, of which the first has most validators, and a pool with 64 ace. -/

def exampleCallees : RouterCallees Unit Nat where
  getStakingModuleSummary deposited addr :=
    .ok (if addr = 21 then ⟨0, 10, 7⟩ else ⟨2, 4 + deposited, 100⟩)
  obtainDepositData deposited _ n _ :=
    .ok (deposited, ByteBuffer.zeros (48 * n), ByteBuffer.zeros (96 * n))
  deposit deposited _ _ _ := .ok (deposited + 1)

def exampleModule (id : Nat) (addr : Address) : StakingModule where
  id := id
  stakingModuleAddress := addr
  stakingModuleFee := 500
  treasuryFee := 500
  targetShare := 10000
  status := .active
  name := []
  lastDepositAt := 0
  lastDepositBlock := 0
  exitedValidatorsCount := 0

def exampleRouter : StakingRouter where
  catalist := 1
  withdrawalCredentials := 5
  stakingModules := fun i => if i = 0 then exampleModule 1 21 else exampleModule 2 22
  stakingModulesCount := 2
  stakingModuleIndicesOneBased := fun id => if id = 1 then 1 else if id = 2 then 2 else 0
  lastStakingModuleId := 2
  hasRole := fun _ _ => false
  balance := 0

theorem exampleDepositTime_pos : 0 < 30 := by decide

def exampleDepositEnv : RouterEnv := ⟨⟨12, 0, 30, exampleDepositTime_pos⟩, 7⟩

def exampleSystem : DepositSystem Nat := ⟨Pool.exampleStart, exampleRouter, 0⟩

theorem deposits_within_limits_two_modules :
    (∑ i ∈ range 2, (if i = 0 then 1 else 9) ≤ 320 * 10 ^ 18 / DEPOSIT_SIZE ∧
      (exampleRouter.activeValidatorsCount exampleCallees 0 1 + 9 ≤
        max (exampleRouter.activeValidatorsCount exampleCallees 0 1)
          (10000 * (exampleRouter.totalActiveValidators exampleCallees 0 + 10) / 10000))) ∧
    ∃ x', exampleSystem.deposit exampleCallees exampleDepositEnv 5 2 [] = .ok x' ∧
      x'.pool.depositedValidators = 2 ∧ x'.pool.getTotalPooledAce = .ok (64 * 10 ^ 18) := by
  obtain ⟨hallocation, hdeposit⟩ := deposits_within_limits exampleCallees
  obtain ⟨hsum, hbounds⟩ := hallocation exampleRouter 0 (320 * 10 ^ 18)
    (fun i => if i = 0 then 1 else 9) (by decide +kernel) (by decide +kernel)
  refine ⟨⟨hsum, (hbounds 1 (by decide)).2.2.2⟩, ?_⟩
  have hrun := eq_ok_result
    (exampleSystem.deposit exampleCallees exampleDepositEnv 5 2 []) (by decide +kernel)
  obtain ⟨_, _, _, -, -, -, -, -, -, htotal, -⟩ := hdeposit _ _ _ _ _ _ hrun
  exact ⟨_, hrun, by decide +kernel, htotal _ (by decide +kernel)⟩

end Catalist
