import Catalist.Pool.Report
import Catalist.WithdrawalQueue.Invariant
import Catalist.Lib.Transition

/-!
# Runs of the pool

The calls of a run as data, the pool right after its initialization, and the steps: a call that
goes through, or a change elsewhere that leaves the accounting alone. `Shifted` says what the
calls that only move shares have in common.
-/

namespace Catalist

open Solidity Ledger Transition

/-- A call of the pool or of the contracts that move its shares. -/
inductive Action where
  | submit (env : Env) (blockNumber : Nat)
  | deposit (env : Env) (maxDepositsCount : Nat) (getStakingModuleMaxDepositsCount : Nat → Nat)
  | unsafeChangeDepositedValidators (canPerform : Bool) (newDepositedValidators : Nat)
  | handleOracleReport (env : Env) (data : OracleReportedData)
      (distribution : StakingRewardsDistribution)
  | token (op : BACE.TokenOp) (caller : Address)
  | requestBurnShares (caller fromAddr : Address) (sharesAmount : Nat)
  | requestWithdrawals (env : Env) (amounts : List Nat) (owner : Address)
  | requestWithdrawalsWbACE (env : Env) (amounts : List Nat) (owner : Address)

/-- The call, without its return value. -/
def Action.run (action : Action) (s : Pool) : Call PoolError Pool :=
  match action with
  | .submit env blockNumber => Prod.fst <$> s.submit env blockNumber
  | .deposit env maxDepositsCount getStakingModuleMaxDepositsCount =>
    s.deposit env maxDepositsCount getStakingModuleMaxDepositsCount
  | .unsafeChangeDepositedValidators canPerform newDepositedValidators =>
    s.unsafeChangeDepositedValidators canPerform newDepositedValidators
  | .handleOracleReport env data distribution =>
    Prod.fst <$> s.handleOracleReport env data distribution
  | .token op caller =>
    (fun token => { s with token := token }) <$> op.run s.token s.getTotalPooledAce caller
  | .requestBurnShares caller fromAddr sharesAmount =>
    s.requestBurnShares caller fromAddr sharesAmount
  | .requestWithdrawals env amounts owner => Prod.fst <$> s.requestWithdrawals env amounts owner
  | .requestWithdrawalsWbACE env amounts owner =>
    Prod.fst <$> s.requestWithdrawalsWbACE env amounts owner

namespace Pool

/-- The storage before `initialize`; the pool may have been sent ace. -/
structure Fresh (s : Pool) : Prop where
  shares : ∀ a, s.token.shares a = 0
  totalShares : s.token.totalShares = 0
  bufferedAce : s.bufferedAce = 0
  depositedValidators : s.depositedValidators = 0
  clBalance : s.clBalance = 0
  clValidators : s.clValidators = 0
  queue : WithdrawalQueue.Initial s.queue
  self_ne : s.token.self ≠ s.locator.withdrawalQueue

/-- A pool right after `initialize`. -/
def Initial (s : Pool) : Prop := ∃ s₀, Fresh s₀ ∧ s₀.initializePool = .ok s

/-- The accounting is the same, and no ace left the contract. -/
structure SameAccounts (s s' : Pool) : Prop where
  locator : s'.locator = s.locator
  self : s'.token.self = s.token.self
  totalShares : s'.token.totalShares = s.token.totalShares
  bufferedAce : s'.bufferedAce = s.bufferedAce
  depositedValidators : s'.depositedValidators = s.depositedValidators
  clBalance : s'.clBalance = s.clBalance
  clValidators : s'.clValidators = s.clValidators
  balance : s.balance ≤ s'.balance

/-- No request was added or finalized. -/
structure SamePositions (q q' : WithdrawalQueue) : Prop where
  cumulativeShares : ∀ i, (q'.queue i).cumulativeShares = (q.queue i).cumulativeShares
  lastRequestId : q'.lastRequestId = q.lastRequestId
  lastFinalizedRequestId : q'.lastFinalizedRequestId = q.lastFinalizedRequestId

/--
Everything that is not a call of the list: pausing and resuming, changed limits and roles, the
claims and transfers of requests, funds received by the vaults.
-/
structure Untouched (s s' : Pool) : Prop extends SameAccounts s s' where
  shares : s'.token.shares = s.token.shares
  positions : SamePositions s.queue s'.queue

/-- A step of a run whose calls all satisfy `Guard`. -/
inductive Step (Guard : Pool → Action → Prop) : Pool → Pool → Prop where
  | call {s s' : Pool} (action : Action) :
      Guard s action → action.run s = .ok s' → Step Guard s s'
  | other {s s' : Pool} : Untouched s s' → Step Guard s s'

variable {s s' s'' : Pool} {env : Env} {source : Address} {n : Nat}

/-! ## Calls that only move shares -/

theorem SameAccounts.refl : SameAccounts s s where
  locator := rfl
  self := rfl
  totalShares := rfl
  bufferedAce := rfl
  depositedValidators := rfl
  clBalance := rfl
  clValidators := rfl
  balance := Nat.le_refl _

theorem SameAccounts.trans (h : SameAccounts s s') (h' : SameAccounts s' s'') :
    SameAccounts s s'' where
  locator := h'.locator.trans h.locator
  self := h'.self.trans h.self
  totalShares := h'.totalShares.trans h.totalShares
  bufferedAce := h'.bufferedAce.trans h.bufferedAce
  depositedValidators := h'.depositedValidators.trans h.depositedValidators
  clBalance := h'.clBalance.trans h.clBalance
  clValidators := h'.clValidators.trans h.clValidators
  balance := h.balance.trans h'.balance

theorem SameAccounts.totalPooledAce (h : SameAccounts s s') :
    s'.totalPooledAce = s.totalPooledAce := by
  simp only [Pool.totalPooledAce, h.bufferedAce, h.clBalance, h.depositedValidators, h.clValidators]

/-- Shares of `source` were moved. -/
structure Shifted (s s' : Pool) (source : Address) : Prop extends SameAccounts s s' where
  le : ∀ a, a ≠ source → s.token.shares a ≤ s'.token.shares a
  balanced : s.token.Balanced → s'.token.Balanced

theorem Shifted.refl : Shifted s s source :=
  { SameAccounts.refl with
    le := fun _ _ => Nat.le_refl _
    balanced := fun hb => hb }

theorem Shifted.trans (h : Shifted s s' source) (h' : Shifted s' s'' source) :
    Shifted s s'' source :=
  { h.toSameAccounts.trans h'.toSameAccounts with
    le := fun a ha => (h.le a ha).trans (h'.le a ha)
    balanced := fun hb => h'.balanced (h.balanced hb) }

/-- The calls of the token. -/
theorem shifted_of_moved {token : BACE} (h : BACE.Moved s.token token source)
    (hs : s' = { s with token := token }) : Shifted s s' source := by
  subst hs
  exact {
    locator := rfl
    self := by
      obtain ⟨_, _, _, _, rfl⟩ := h
      rfl
    totalShares := h.totalShares
    bufferedAce := rfl
    depositedValidators := rfl
    clBalance := rfl
    clValidators := rfl
    balance := Nat.le_refl _
    le := fun _ ha => h.le ha
    balanced := fun hb => h.balanced hb }

theorem shifted_of_requestBurnShares {caller fromAddr : Address}
    (h : s.requestBurnShares caller fromAddr n = .ok s') : Shifted s s' fromAddr := by
  obtain ⟨allowances, burner, hle, rfl⟩ := requestBurnShares_ok_cases h
  have hmoved : BACE.Moved s.token
      { s.token with
        shares := move s.token.shares fromAddr s.locator.burner n
        allowances := allowances } fromAddr := ⟨s.locator.burner, n, allowances, hle, rfl⟩
  exact { shifted_of_moved hmoved rfl with }

theorem Enqueued.shifted (h : Enqueued s s' env source) : Shifted s s' source := by
  obtain ⟨n, _, _, _, allowances, queue, wbACE, hle, -, rfl⟩ := h
  have hmoved : BACE.Moved s.token
      { s.token with
        shares := move s.token.shares source s.locator.withdrawalQueue n
        allowances := allowances } source := ⟨s.locator.withdrawalQueue, n, allowances, hle, rfl⟩
  exact { shifted_of_moved hmoved rfl with }

theorem shifted_of_requestWithdrawals {amounts requestIds : List Nat} {owner : Address}
    (h : s.requestWithdrawals env amounts owner = .ok (s', requestIds)) :
    Shifted s s' env.sender := by
  obtain ⟨_, h⟩ := requestWithdrawals_ok_cases h
  exact requestWithdrawalsLoop_rel (R := fun s s' => Shifted s s' env.sender)
    (fun _ => Shifted.refl) (fun _ _ _ => Shifted.trans) (fun _ _ => Enqueued.shifted) h

theorem shifted_of_requestWithdrawalsWbACE {amounts requestIds : List Nat} {owner : Address}
    (h : s.requestWithdrawalsWbACE env amounts owner = .ok (s', requestIds)) :
    Shifted s s' s.locator.wbACE := by
  obtain ⟨_, h⟩ := requestWithdrawalsWbACE_ok_cases h
  refine requestWithdrawalsWbACELoop_rel (R := fun s s' => Shifted s s' s.locator.wbACE)
    (fun _ => Shifted.refl) ?_ (fun _ _ => Enqueued.shifted) h
  intro s₁ s₂ s₃ h₁ h₂
  rw [h₁.locator] at h₂
  exact h₁.trans h₂

end Pool

/-! ## Sorts of calls -/

/-- The account whose shares a call moves. -/
def Action.source (action : Action) (s : Pool) : Option Address :=
  match action with
  | .submit _ _ => none
  | .deposit _ _ _ => none
  | .unsafeChangeDepositedValidators _ _ => none
  | .handleOracleReport _ _ _ => none
  | .token op caller => some (op.source caller)
  | .requestBurnShares _ fromAddr _ => some fromAddr
  | .requestWithdrawals env _ _ => some env.sender
  | .requestWithdrawalsWbACE _ _ _ => some s.locator.wbACE

/-- Calls that name a source only move shares of it. -/
theorem Action.shifted {action : Action} {s s' : Pool} {source : Address}
    (hsource : action.source s = some source) (h : action.run s = .ok s') :
    Pool.Shifted s s' source := by
  cases action with
  | submit env blockNumber => cases hsource
  | deposit env maxDepositsCount getStakingModuleMaxDepositsCount => cases hsource
  | unsafeChangeDepositedValidators canPerform newDepositedValidators => cases hsource
  | handleOracleReport env data distribution => cases hsource
  | token op caller =>
    cases hsource
    obtain ⟨token, hrun, rfl⟩ := map_eq_ok.mp h
    exact Pool.shifted_of_moved (BACE.TokenOp.moved hrun) rfl
  | requestBurnShares caller fromAddr sharesAmount =>
    cases hsource
    exact Pool.shifted_of_requestBurnShares h
  | requestWithdrawals env amounts owner =>
    cases hsource
    obtain ⟨⟨s₁, requestIds⟩, hrun, rfl⟩ := map_eq_ok.mp h
    exact Pool.shifted_of_requestWithdrawals hrun
  | requestWithdrawalsWbACE env amounts owner =>
    cases hsource
    obtain ⟨⟨s₁, requestIds⟩, hrun, rfl⟩ := map_eq_ok.mp h
    exact Pool.shifted_of_requestWithdrawalsWbACE hrun

namespace Pool

/-! ## Sequences of calls -/

variable {s s' : Pool}

/-- The addresses of the contracts never change. -/
theorem locator_run {action : Action} (h : action.run s = .ok s') : s'.locator = s.locator := by
  cases hsource : action.source s with
  | some source => exact (action.shifted hsource h).locator
  | none =>
    cases action with
    | submit env blockNumber =>
      obtain ⟨⟨s₁, n⟩, hrun, rfl⟩ := map_eq_ok.mp h
      obtain ⟨_, _, _, _, _, _, _, _, _, rfl⟩ := submit_ok_cases hrun
      rfl
    | deposit env maxDepositsCount getStakingModuleMaxDepositsCount =>
      obtain ⟨_, _, _, rfl⟩ := deposit_ok_cases h
      rfl
    | unsafeChangeDepositedValidators canPerform newDepositedValidators =>
      obtain rfl := unsafeChangeDepositedValidators_ok_cases h
      rfl
    | handleOracleReport env data distribution =>
      obtain ⟨⟨s₁, amounts⟩, hrun, rfl⟩ := map_eq_ok.mp h
      obtain ⟨_, context, hinternal⟩ := handleOracleReport_eq_ok.mp hrun
      exact (reportEffects hinternal).locator
    | token op caller => cases hsource
    | requestBurnShares caller fromAddr sharesAmount => cases hsource
    | requestWithdrawals env amounts owner => cases hsource
    | requestWithdrawalsWbACE env amounts owner => cases hsource

/-- Some calls one after the other. -/
def runAll (s : Pool) : List Action → Call PoolError Pool
  | [] => return s
  | action :: actions => do
    let s ← action.run s
    s.runAll actions

/-- The induction is over the calls that are left. -/
theorem reachable_runAll {Guard : Pool → Action → Prop} {actions : List Action}
    (hr : Reachable Initial (Step Guard) s)
    (hguard : ∀ action ∈ actions, ∀ s₁, s₁.locator = s.locator → Guard s₁ action)
    (h : s.runAll actions = .ok s') : Reachable Initial (Step Guard) s' := by
  induction actions generalizing s with
  | nil =>
    cases h
    exact hr
  | cons action actions ih =>
    simp only [runAll, bind_eq_ok] at h
    obtain ⟨s₁, hrun, hrest⟩ := h
    have hhead := hguard action List.mem_cons_self s rfl
    refine ih (hr.step (.call action hhead hrun)) ?_ hrest
    intro a ha s₂ hlocator
    exact hguard a (List.mem_cons_of_mem action ha) s₂ (hlocator.trans (locator_run hrun))

end Pool

end Catalist
