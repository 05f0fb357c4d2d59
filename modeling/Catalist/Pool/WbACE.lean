import Catalist.Pool.Dilution
import Catalist.Pool.BurnerCoverage

/-!
# The wrapped token

`WbACE.sol`: wrapping, unwrapping and the payable `receive`, which submits and wraps. A wrapped
token is a claim on one share of the wrapper, but the shares that move in and out are computed from
amounts of tokens that were themselves rounded down.

The runs are those of the wrapper. Everything else that may happen to the pool between its calls is
one relation, `Elsewhere`: other shares and the rate are arbitrary after it, and only the shares of
the wrapper do not decrease.
-/

namespace Catalist

open Solidity Ledger Transition

/-! ## The ERC20 token -/

namespace WbACE

variable (w : WbACE)

/-- `_mint` -/
def mint (account : Address) (amount : Nat) : Call PoolError WbACE := do
  require (account ≠ 0) .mintToZeroAddr
  let totalSupply ← checkedAdd 256 w.totalSupply amount
  let balance ← checkedAdd 256 (w.balances account) amount
  return { w with
    totalSupply := totalSupply
    balances := Function.update w.balances account balance }

def transfer (sender recipient : Address) (amount : Nat) : Call PoolError WbACE := do
  require (sender ≠ 0) .transferFromZeroAddr
  require (recipient ≠ 0) .transferToZeroAddr
  require (amount ≤ w.balances sender) .transferAmountExceedsBalance
  let balances := Function.update w.balances sender (w.balances sender - amount)
  let recipientBalance ← checkedAdd 256 (balances recipient) amount
  return { w with balances := Function.update balances recipient recipientBalance }

/-- The balances add up to the supply. -/
def Balanced : Prop := ∑ a, w.balances a = w.totalSupply

variable {w} {w' : WbACE} {account caller sender recipient : Address} {amount : Nat}

theorem mint_ok_cases (h : w.mint account amount = .ok w') :
    w' = { w with
      totalSupply := w.totalSupply + amount
      balances := Function.update w.balances account (w.balances account + amount) } := by
  simp only [mint, bind_eq_ok, require_eq_ok, checkedAdd_eq_ok, pure_eq_ok] at h
  obtain ⟨_, _, _, ⟨_, rfl⟩, _, ⟨_, rfl⟩, rfl⟩ := h
  rfl

theorem burn_ok_cases (h : w.burn account amount = .ok w') :
    amount ≤ w.balances account ∧ amount ≤ w.totalSupply ∧
    w' = { w with
      balances := Function.update w.balances account (w.balances account - amount)
      totalSupply := w.totalSupply - amount } := by
  simp only [burn, bind_eq_ok, require_eq_ok, checkedSub_eq_ok, pure_eq_ok] at h
  obtain ⟨_, _, _, hle, _, ⟨hsupply, rfl⟩, rfl⟩ := h
  exact ⟨hle, hsupply, rfl⟩

/-- Both kinds of transfers move a part of the balance of `sender`. -/
def Transferred (w w' : WbACE) (sender recipient : Address) (amount : Nat) : Prop :=
  amount ≤ w.balances sender ∧ w'.totalSupply = w.totalSupply ∧
    w'.balances = move w.balances sender recipient amount

theorem transfer_ok_cases (h : w.transfer sender recipient amount = .ok w') :
    Transferred w w' sender recipient amount := by
  simp only [transfer, bind_eq_ok, require_eq_ok, checkedAdd_eq_ok, pure_eq_ok] at h
  obtain ⟨_, _, _, _, _, hle, _, ⟨_, rfl⟩, rfl⟩ := h
  exact ⟨hle, rfl, rfl⟩

theorem transferFrom_ok_cases (h : w.transferFrom caller sender recipient amount = .ok w') :
    Transferred w w' sender recipient amount := by
  simp only [transferFrom, bind_eq_ok, require_eq_ok, checkedAdd_eq_ok, pure_eq_ok] at h
  obtain ⟨_, _, _, _, _, hle, _, ⟨_, rfl⟩, _, _, _, _, rfl⟩ := h
  exact ⟨hle, rfl, rfl⟩

theorem Balanced.mint (hb : Balanced w) (h : w.mint account amount = .ok w') : Balanced w' := by
  obtain rfl := mint_ok_cases h
  have hsum := sum_update_add (f := w.balances) (w.balances account + amount)
    (Finset.mem_univ account)
  unfold Balanced at hb ⊢
  simp only
  omega

theorem Balanced.burn (hb : Balanced w) (h : w.burn account amount = .ok w') : Balanced w' := by
  obtain ⟨hle, hsupply, rfl⟩ := burn_ok_cases h
  have hsum := sum_update_add (f := w.balances) (w.balances account - amount)
    (Finset.mem_univ account)
  unfold Balanced at hb ⊢
  simp only
  omega

theorem Balanced.transferred (hb : Balanced w) (h : Transferred w w' sender recipient amount) :
    Balanced w' := by
  obtain ⟨hle, hsupply, hbalances⟩ := h
  unfold Balanced at hb ⊢
  rw [hsupply, hbalances, sum_move (Finset.mem_univ _) (Finset.mem_univ _) hle]
  exact hb

/-- What an account holds was minted. -/
theorem Balanced.le (hb : Balanced w) (account : Address) : w.balances account ≤ w.totalSupply := by
  rw [← hb]
  exact le_sum (Finset.mem_univ account)

end WbACE

/-! ## Wrapping -/

namespace Pool

variable (s : Pool)

/-- `wrap`, called by `caller`; it also returns the amount of wbACE. -/
def wrap (caller : Address) (bACEAmount : Nat) : Call PoolError (Pool × Nat) := do
  require (0 < bACEAmount) .cantWrapZeroBACE
  let wbACEAmount ← s.token.getSharesByPooledAce s.getTotalPooledAce bACEAmount
  let wbACE ← s.wbACE.mint caller wbACEAmount
  let token ← s.token.transferFrom s.getTotalPooledAce s.locator.wbACE caller s.locator.wbACE
    bACEAmount
  return ({ s with wbACE := wbACE, token := token }, wbACEAmount)

/-- `receive`: the value is submitted by the wrapper. -/
def receive (env : Env) (blockNumber : Nat) : Call PoolError Pool := do
  let (s, shares) ← s.submit { env with sender := s.locator.wbACE } blockNumber
  let wbACE ← s.wbACE.mint env.sender shares
  return { s with wbACE := wbACE }

/-- The shares that the wrapper holds. -/
def wrapperShares : Nat := s.token.sharesOf s.locator.wbACE

variable {s} {s' s₁ s₂ s₃ : Pool} {env : Env} {caller user owner : Address}
  {amount w e blockNumber : Nat} {amounts requestIds : List Nat}

/-- The amount is turned into shares twice, at the same rate. -/
theorem wrap_ok_cases (h : s.wrap caller amount = .ok (s', w)) :
    w ≤ s.token.shares caller ∧ ∃ wbACE allowances,
      s.wbACE.mint caller w = .ok wbACE ∧
      s' = { s with
        wbACE := wbACE
        token := { s.token with
          shares := move s.token.shares caller s.locator.wbACE w
          allowances := allowances } } := by
  simp only [wrap, BACE.transferFrom, BACE.transferInternal, bind_eq_ok, require_eq_ok, pure_eq_ok,
    Prod.mk.injEq, BACE.getSharesByPooledAce_eq_ok] at h
  obtain ⟨_, _, _, ⟨_, P, hP, _, rfl⟩, wbACE, hmint, token, ⟨_, hspend, _, ⟨_, P', hP', _, rfl⟩,
    htransfer⟩, rfl, rfl⟩ := h
  obtain ⟨allowances, rfl⟩ := BACE.spendAllowance_shares hspend
  obtain ⟨-, -, -, -, hle, rfl⟩ := BACE.transferSharesInternal_ok_cases htransfer
  obtain rfl : P = P' := Except.ok.inj (hP.symm.trans hP')
  exact ⟨hle, wbACE, allowances, hmint, rfl⟩

/-- At most as many shares leave the wrapper as wrapped tokens are burnt. -/
theorem unwrap_moves (h : s.unwrap caller amount = .ok (s', e)) :
    ∃ n wbACE, n ≤ amount ∧ n ≤ s.token.shares s.locator.wbACE ∧
      s.wbACE.burn caller amount = .ok wbACE ∧
      s' = { s with
        wbACE := wbACE
        token := s.token.withShares (move s.token.shares s.locator.wbACE caller n) } := by
  simp only [unwrap, BACE.transfer, BACE.transferInternal, bind_eq_ok, require_eq_ok, pure_eq_ok,
    Prod.mk.injEq, BACE.getSharesByPooledAce_eq_ok, BACE.getPooledAceByShares_eq_ok] at h
  obtain ⟨_, _, _, ⟨P, hP, _, _, rfl⟩, wbACE, hburn, token, ⟨_, ⟨_, P', hP', _, rfl⟩, htransfer⟩,
    rfl, rfl⟩ := h
  obtain ⟨-, -, -, -, hle, rfl⟩ := BACE.transferSharesInternal_ok_cases htransfer
  obtain rfl : P = P' := Except.ok.inj (hP.symm.trans hP')
  exact ⟨_, wbACE, mul_div_mul_div_le, hle, hburn, rfl⟩

/-- The submission mints the same shares to the wrapper. -/
theorem receive_ok_cases (h : s.receive env blockNumber = .ok s') :
    ∃ shares wbACE, s.wbACE.mint env.sender shares = .ok wbACE ∧
      s'.wbACE = wbACE ∧ s'.locator = s.locator ∧
      s'.wrapperShares = s.wrapperShares + shares := by
  simp only [receive, bind_eq_ok, pure_eq_ok] at h
  obtain ⟨⟨s₁, shares⟩, hsubmit, wbACE, hmint, rfl⟩ := h
  obtain ⟨P, P', stakeLimit, token, total, _, _, hshares, _, rfl⟩ := submit_ok_cases hsubmit
  obtain ⟨-, -, rfl⟩ := BACE.mintShares_ok_cases hshares
  refine ⟨shares, wbACE, hmint, rfl, rfl, ?_⟩
  show Function.update _ _ _ _ = _
  rw [Function.update_self]
  rfl

/-! ## The wrapped tokens are backed -/

/-- The wrapped tokens are at most the shares of the wrapper. -/
structure WrapperBacked (s : Pool) : Prop where
  balanced : s.wbACE.Balanced
  covered : s.wbACE.totalSupply ≤ s.wrapperShares

theorem WrapperBacked.wrap (hb : WrapperBacked s) (hcaller : caller ≠ s.locator.wbACE)
    (h : s.wrap caller amount = .ok (s', w)) : WrapperBacked s' := by
  obtain ⟨hle, wbACE, allowances, hmint, rfl⟩ := wrap_ok_cases h
  refine ⟨hb.balanced.mint hmint, ?_⟩
  obtain rfl := WbACE.mint_ok_cases hmint
  show s.wbACE.totalSupply + w ≤ move s.token.shares caller s.locator.wbACE w s.locator.wbACE
  rw [move_to hcaller.symm]
  exact Nat.add_le_add_right hb.covered w

theorem WrapperBacked.unwrap (hb : WrapperBacked s)
    (h : s.unwrap caller amount = .ok (s', e)) : WrapperBacked s' := by
  obtain ⟨n, wbACE, hn, hle, hburn, rfl⟩ := unwrap_moves h
  refine ⟨hb.balanced.burn hburn, ?_⟩
  obtain ⟨-, hsupply, rfl⟩ := WbACE.burn_ok_cases hburn
  have hcovered : s.wbACE.totalSupply ≤ s.token.shares s.locator.wbACE := hb.covered
  show s.wbACE.totalSupply - amount ≤ move s.token.shares s.locator.wbACE caller n s.locator.wbACE
  by_cases hcaller : caller = s.locator.wbACE
  · -- the wrapper pays itself
    rw [hcaller]
    simp only [move, Function.update_self]
    omega
  · simp only [move, Function.update_self, Function.update_of_ne (Ne.symm hcaller)]
    omega

theorem WrapperBacked.receive (hb : WrapperBacked s)
    (h : s.receive env blockNumber = .ok s') : WrapperBacked s' := by
  obtain ⟨shares, wbACE, hmint, hwbACE, -, hshares⟩ := receive_ok_cases h
  subst hwbACE
  refine ⟨hb.balanced.mint hmint, ?_⟩
  rw [WbACE.mint_ok_cases hmint, hshares]
  exact Nat.add_le_add_right hb.covered shares

theorem WrapperBacked.transferred {wbACE : WbACE} {sender recipient : Address} (hb : WrapperBacked s)
    (h : WbACE.Transferred s.wbACE wbACE sender recipient amount) :
    WrapperBacked { s with wbACE := wbACE } := by
  refine ⟨hb.balanced.transferred h, ?_⟩
  show wbACE.totalSupply ≤ _
  rw [h.2.1]
  exact hb.covered

/-- A request for wrapped tokens transfers them to the queue, which unwraps them. -/
theorem WrapperBacked.requestWithdrawalWbACE {requestId : Nat} (hb : WrapperBacked s)
    (h : s.requestWithdrawalWbACE env amount owner = .ok (s', requestId)) : WrapperBacked s' := by
  simp only [Pool.requestWithdrawalWbACE, enqueueRequest, bind_eq_ok, within_eq_ok, pure_eq_ok,
    Prod.mk.injEq] at h
  obtain ⟨wbACE, htransfer, ⟨s₁, amountOfBACE⟩, hunwrap, _, _, _, _, ⟨queue, id⟩, _, rfl, rfl⟩ := h
  have hb₁ := (hb.transferred (WbACE.transferFrom_ok_cases htransfer)).unwrap hunwrap
  exact ⟨hb₁.balanced, hb₁.covered⟩

/-- The induction is over the amounts that are left. -/
theorem WrapperBacked.requestWithdrawalsWbACELoop (hb : WrapperBacked s)
    (h : requestWithdrawalsWbACELoop env owner s amounts = .ok (s', requestIds)) :
    WrapperBacked s' := by
  induction amounts generalizing s requestIds with
  | nil =>
    cases h
    exact hb
  | cons amount amounts ih =>
    simp only [Pool.requestWithdrawalsWbACELoop, bind_eq_ok, pure_eq_ok, Prod.mk.injEq] at h
    obtain ⟨⟨s₁, requestId⟩, hrequest, ⟨s₂, requestIds⟩, hrest, rfl, rfl⟩ := h
    exact ih (hb.requestWithdrawalWbACE hrequest) hrest

/-! ## Runs -/

/-- No wrapped token exists. -/
def NothingWrapped (s : Pool) : Prop := (∀ a, s.wbACE.balances a = 0) ∧ s.wbACE.totalSupply = 0

/--
What happens outside of the wrapper: rebases, shares sent to it, other users of the pool, changed
allowances of the wrapped token. Shares do not leave the wrapper this way.
-/
structure Elsewhere (s s' : Pool) : Prop where
  locator : s'.locator = s.locator
  balances : s'.wbACE.balances = s.wbACE.balances
  totalSupply : s'.wbACE.totalSupply = s.wbACE.totalSupply
  shares : s.wrapperShares ≤ s'.wrapperShares

/-- The steps of the wrapper. -/
inductive WrapperStep : Pool → Pool → Prop where
  /-- The wrapper has no function that calls `wrap`. -/
  | wrap {s s' : Pool} {caller : Address} {bACEAmount w : Nat} :
      caller ≠ s.locator.wbACE → s.wrap caller bACEAmount = .ok (s', w) → WrapperStep s s'
  | unwrap {s s' : Pool} {caller : Address} {amountOfWbACE e : Nat} :
      s.unwrap caller amountOfWbACE = .ok (s', e) → WrapperStep s s'
  | receive {s s' : Pool} {env : Env} {blockNumber : Nat} :
      s.receive env blockNumber = .ok s' → WrapperStep s s'
  | transfer {s : Pool} {sender recipient : Address} {amount : Nat} {wbACE : WbACE} :
      s.wbACE.transfer sender recipient amount = .ok wbACE →
      WrapperStep s { s with wbACE := wbACE }
  | transferFrom {s : Pool} {caller sender recipient : Address} {amount : Nat} {wbACE : WbACE} :
      s.wbACE.transferFrom caller sender recipient amount = .ok wbACE →
      WrapperStep s { s with wbACE := wbACE }
  | requestWithdrawalsWbACE {s s' : Pool} {env : Env} {amounts requestIds : List Nat}
      {owner : Address} :
      s.requestWithdrawalsWbACE env amounts owner = .ok (s', requestIds) → WrapperStep s s'
  | elsewhere {s s' : Pool} : Elsewhere s s' → WrapperStep s s'

theorem WrapperBacked.step (hb : WrapperBacked s) (h : WrapperStep s s') : WrapperBacked s' := by
  cases h with
  | wrap hcaller h => exact hb.wrap hcaller h
  | unwrap h => exact hb.unwrap h
  | receive h => exact hb.receive h
  | transfer h => exact hb.transferred (WbACE.transfer_ok_cases h)
  | transferFrom h => exact hb.transferred (WbACE.transferFrom_ok_cases h)
  | requestWithdrawalsWbACE h =>
    obtain ⟨owner, h⟩ := requestWithdrawalsWbACE_ok_cases h
    exact hb.requestWithdrawalsWbACELoop h
  | elsewhere h =>
    obtain ⟨hlocator, hbalances, hsupply, hshares⟩ := h
    refine ⟨?_, ?_⟩
    · unfold WbACE.Balanced
      rw [hbalances, hsupply]
      exact hb.balanced
    · rw [hsupply]
      exact hb.covered.trans hshares

theorem wrapperBacked_of_reachable (hr : Reachable NothingWrapped WrapperStep s) :
    WrapperBacked s := by
  refine hr.invariant ?_ fun _ _ hb h => hb.step h
  rintro s ⟨hbalances, hsupply⟩
  refine ⟨?_, ?_⟩
  · unfold WbACE.Balanced
    simp [hbalances, hsupply]
  · rw [hsupply]
    exact Nat.zero_le _

/-! ## The pool around the wrapper -/

/-- A request for the caller's own tokens leaves the wrapped ones alone. -/
theorem wbACE_of_requestWithdrawalsLoop
    (h : requestWithdrawalsLoop env owner s amounts = .ok (s', requestIds)) :
    s'.wbACE = s.wbACE := by
  induction amounts generalizing s requestIds with
  | nil =>
    cases h
    rfl
  | cons amount amounts ih =>
    simp only [requestWithdrawalsLoop, requestWithdrawal, enqueueRequest, bind_eq_ok, within_eq_ok,
      pure_eq_ok, Prod.mk.injEq] at h
    obtain ⟨_, _, ⟨s₁, requestId⟩, ⟨_, _, _, _, ⟨queue, id⟩, _, rfl, _⟩, ⟨s₂, requestIds⟩, hrest,
      rfl, rfl⟩ := h
    have hsame := ih hrest
    exact hsame

theorem wbACE_of_handleOracleReport {data : OracleReportedData}
    {distribution : StakingRewardsDistribution} {context : OracleReportContext}
    {amounts : PostRebaseAmounts}
    (h : s.handleOracleReportInternal env data distribution = .ok (s', context, amounts)) :
    s'.wbACE = s.wbACE := by
  simp only [handleOracleReportInternal, bind_eq_ok, require_eq_ok, pure_eq_ok, Prod.mk.injEq] at h
  obtain ⟨_, _, _, _, P, _, ⟨s₁, preCLBalance⟩, hstate, _, hcheck,
    ⟨s₂, aceToLock, sharesToBurnFromWithdrawalQueue⟩, hprepare, rebase, hsmoothen, s₃, hcollect,
    s₄, hburn, ⟨s₅, sharesMintedAsFees⟩, hrewards, _, _, _, _, rfl, _⟩ := h
  obtain ⟨-, -, -, rfl⟩ := processClStateUpdate_ok_cases hstate
  obtain ⟨-, helVault⟩ := checkAccountingOracleReport_ok_cases hcheck
  obtain ⟨-, _, _, -, rfl⟩ := prepareWithdrawals_ok_cases hprepare
  obtain ⟨-, he⟩ := smoothenTokenRebase_le hsmoothen
  obtain ⟨-, -, -, _, _, rfl, -⟩ :=
    collectRewardsAndProcessWithdrawals_ok_cases hcollect (he.trans helVault)
  obtain ⟨-, -, _, rfl⟩ := burnRequestedShares_ok_cases hburn
  obtain ⟨_, -, rfl⟩ := processRewards_ok_cases hrewards
  rfl

/-- Only a request for wrapped tokens touches the wrapped token. -/
theorem wbACE_run {action : Action} (hsource : action.source s ≠ some s.locator.wbACE)
    (h : action.run s = .ok s') : s'.wbACE = s.wbACE := by
  cases action with
  | submit env blockNumber =>
    obtain ⟨⟨s₁, n⟩, hrun, rfl⟩ := map_eq_ok.mp h
    obtain ⟨_, _, _, _, _, _, _, _, _, rfl⟩ := submit_ok_cases hrun
    rfl
  | deposit env maxDepositsCount getStakingModuleMaxDepositsCount =>
    obtain ⟨_, _, _, rfl⟩ := deposit_ok_cases h
    rfl
  | unsafeChangeDepositedValidators canPerform newDepositedValidators =>
    obtain rfl := unsafeChangeDepositedValidators_ok_cases h
    rfl
  | handleOracleReport env data distribution =>
    obtain ⟨⟨s₁, amounts⟩, hrun, rfl⟩ := map_eq_ok.mp h
    obtain ⟨_, context, hinternal⟩ := handleOracleReport_eq_ok.mp hrun
    exact wbACE_of_handleOracleReport hinternal
  | token op caller =>
    obtain ⟨token, _, rfl⟩ := map_eq_ok.mp h
    rfl
  | requestBurnShares caller fromAddr sharesAmount =>
    obtain ⟨_, _, _, rfl⟩ := requestBurnShares_ok_cases h
    rfl
  | requestWithdrawals env amounts owner =>
    obtain ⟨⟨s₁, requestIds⟩, hrun, rfl⟩ := map_eq_ok.mp h
    obtain ⟨_, hloop⟩ := requestWithdrawals_ok_cases hrun
    exact wbACE_of_requestWithdrawalsLoop hloop
  | requestWithdrawalsWbACE env amounts owner => exact absurd rfl hsource

/--
The calls of the pool happen elsewhere, as far as they do not move shares of the wrapper. A report
burns shares of the burner and pays from the pool's own.
-/
theorem elsewhere_of_run {action : Action} (hself : s.locator.wbACE ≠ s.token.self)
    (hburner : s.locator.wbACE ≠ s.locator.burner)
    (hsource : action.source s ≠ some s.locator.wbACE) (h : action.run s = .ok s') :
    Elsewhere s s' := by
  have hlocator := locator_run h
  have hwbACE := wbACE_run hsource h
  have hshares : s.token.shares s.locator.wbACE ≤ s'.token.shares s.locator.wbACE := by
    cases hcalls : action.source s with
    | some source =>
      refine (action.shifted hcalls h).le _ ?_
      rintro rfl
      exact hsource hcalls
    | none =>
      cases action with
      | submit env blockNumber =>
        obtain ⟨⟨s₁, n⟩, hrun, rfl⟩ := map_eq_ok.mp h
        exact (undiluted_of_submit hrun).le _ (by simp)
      | deposit env maxDepositsCount getStakingModuleMaxDepositsCount =>
        obtain ⟨_, _, _, rfl⟩ := deposit_ok_cases h
        exact Nat.le_refl _
      | unsafeChangeDepositedValidators canPerform newDepositedValidators =>
        obtain rfl := unsafeChangeDepositedValidators_ok_cases h
        exact Nat.le_refl _
      | handleOracleReport env data distribution =>
        obtain ⟨⟨s₁, amounts⟩, hrun, rfl⟩ := map_eq_ok.mp h
        obtain ⟨_, context, hinternal⟩ := handleOracleReport_eq_ok.mp hrun
        obtain ⟨token, hburnt, hpaid⟩ := (reportEffects hinternal).token
        rw [← hburnt.eq _ s.locator.wbACE_ne_withdrawalQueue hburner]
        exact hpaid.le _ hself
      | token op caller => cases hcalls
      | requestBurnShares caller fromAddr sharesAmount => cases hcalls
      | requestWithdrawals env amounts owner => cases hcalls
      | requestWithdrawalsWbACE env amounts owner => cases hcalls
  refine ⟨hlocator, by rw [hwbACE], by rw [hwbACE], ?_⟩
  unfold wrapperShares
  rw [hlocator]
  exact hshares

/-! ## The main result -/

/-- The wrapper has the shares for everything that its users can unwrap. -/
theorem WrapperBacked.ensures_unwrap (hb : WrapperBacked s) :
    Ensures Sufficient (s.unwrap caller amount) fun _ => True := by
  refine (ensures_require ⟨nofun, nofun⟩).bind fun _ _ => ?_
  refine (ensures_priced s.token).bind_ok fun bACEAmount hamount => ?_
  obtain ⟨P, hP, -, -, rfl⟩ := BACE.getPooledAceByShares_eq_ok.mp hamount
  have hburn : Ensures Sufficient (s.wbACE.burn caller amount) fun _ =>
      amount ≤ s.wrapperShares := by
    refine (ensures_require sufficient_burnFromZeroAddr).bind fun _ _ => ?_
    refine (ensures_require ⟨nofun, nofun⟩).bind fun _ hle => ?_
    have hsupply : amount ≤ s.wbACE.totalSupply := hle.trans (hb.balanced.le caller)
    exact (ensures_checkedSub hsupply).bind fun _ _ => ensures_pure (hsupply.trans hb.covered)
  refine hburn.bind fun _ hle => ?_
  have htransfer : Ensures Sufficient (s.token.transfer s.getTotalPooledAce s.locator.wbACE caller
      (amount * P / s.token.totalShares)) fun _ => True := by
    have hshares : Ensures Sufficient (s.token.getSharesByPooledAce s.getTotalPooledAce
        (amount * P / s.token.totalShares)) fun n => n ≤ amount := by
      refine (ensures_checkedMul sufficient_overflow).bind fun product hproduct => ?_
      refine ensures_pooled.bind_ok fun P' hP' => ?_
      obtain rfl : P = P' := Except.ok.inj (hP.symm.trans hP')
      subst hproduct
      exact (ensures_division sufficient_divisionByZero).mono fun n hn =>
        hn ▸ mul_div_mul_div_le
    exact hshares.bind fun n hn => ensures_transferShares (hn.trans hle)
  exact htransfer.bind fun _ _ => ensures_pure trivial

/--
Wrapping takes the shares that it mints tokens for, and unwrapping these gives back at most as many,
at whatever rate.
-/
theorem shares_le_of_wrap_unwrap (hlocator : s₂.locator = s.locator)
    (hshares : s₂.token.shares user = s₁.token.shares user)
    (hwrap : s.wrap user amount = .ok (s₁, w)) (hunwrap : s₂.unwrap user w = .ok (s₃, e)) :
    s₃.token.shares user ≤ s.token.shares user := by
  obtain ⟨hle, _, _, _, rfl⟩ := wrap_ok_cases hwrap
  obtain ⟨n, _, hn, hle', _, rfl⟩ := unwrap_moves hunwrap
  show move s₂.token.shares s₂.locator.wbACE user n user ≤ _
  rw [hlocator] at hle' ⊢
  replace hshares : s₂.token.shares user
    = move s.token.shares user s.locator.wbACE w user := hshares
  by_cases huser : user = s.locator.wbACE
  · -- the wrapper pays itself, twice
    subst huser
    simp only [move, Function.update_self] at hshares ⊢
    omega
  · rw [move_to huser, hshares]
    simp only [move, Function.update_self, Function.update_of_ne huser]
    omega

/--
**The wrapped token is always backed**: its supply is at most the shares of the wrapper, so no
unwrap fails for lack of shares, and whoever wraps tokens and unwraps what was received for them has
no more shares than before.
-/
theorem wbACE_backed (hr : Reachable NothingWrapped WrapperStep s) :
    s.wbACE.totalSupply ≤ s.token.sharesOf s.locator.wbACE ∧
    (∀ caller amountOfWbACE r, s.unwrap caller amountOfWbACE = .error r → Sufficient r) ∧
    ∀ user bACEAmount (s₁ : Pool) w (s₂ s₃ : Pool) e, s.wrap user bACEAmount = .ok (s₁, w) →
      s₂.locator = s.locator → s₂.token.shares user = s₁.token.shares user →
      s₂.unwrap user w = .ok (s₃, e) → s₃.token.shares user ≤ s.token.shares user := by
  have hb := wrapperBacked_of_reachable hr
  refine ⟨hb.covered, fun _ _ _ h => hb.ensures_unwrap.of_error h, ?_⟩
  intro user bACEAmount s₁ w s₂ s₃ e hwrap hlocator hshares hunwrap
  exact shares_le_of_wrap_unwrap hlocator hshares hwrap hunwrap

/-- Account 100 lets the wrapper take its tokens, and wraps some of them after the report. -/
def exampleApproved : Pool :=
  result (Action.run (.token (.approve 14 (10 ^ 19)) 100) exampleAfterReport) (by decide +kernel)

def exampleWrapped : Pool × Nat :=
  result (exampleApproved.wrap 100 (10 ^ 18 + 1)) (by decide +kernel)

def exampleUnwrapped : Pool × Nat :=
  result (exampleWrapped.1.unwrap 100 exampleWrapped.2) (by decide +kernel)

theorem reachable_exampleApproved : Reachable NothingWrapped WrapperStep exampleApproved := by
  have hinit : NothingWrapped exampleAfterReport := by
    have hwbACE : exampleAfterReport.wbACE = exampleGenesis.wbACE := rfl
    exact ⟨fun _ => by rw [hwbACE]; rfl, by rw [hwbACE]; rfl⟩
  have happrove : Action.run (.token (.approve 14 (10 ^ 19)) 100) exampleAfterReport
      = .ok exampleApproved := eq_ok_result _ (by decide +kernel)
  exact (Reachable.init hinit).step (.elsewhere (elsewhere_of_run (by decide +kernel)
    (by decide +kernel) (by decide +kernel) happrove))

/-- At a price that is not a whole number, an amount is wrapped and unwrapped again. -/
theorem wbACE_backed_after_report :
    exampleWrapped.1.wbACE.totalSupply ≤
      exampleWrapped.1.token.sharesOf exampleWrapped.1.locator.wbACE ∧
    exampleUnwrapped.1.token.shares 100 ≤ exampleApproved.token.shares 100 := by
  have hwrap : exampleApproved.wrap 100 (10 ^ 18 + 1) = .ok exampleWrapped :=
    eq_ok_result _ (by decide +kernel)
  have hunwrap : exampleWrapped.1.unwrap 100 exampleWrapped.2 = .ok exampleUnwrapped :=
    eq_ok_result _ (by decide +kernel)
  rw [← Prod.mk.eta (p := exampleWrapped)] at hwrap
  rw [← Prod.mk.eta (p := exampleUnwrapped)] at hunwrap
  have hwrapped : Reachable NothingWrapped WrapperStep exampleWrapped.1 :=
    reachable_exampleApproved.step (.wrap (by decide +kernel) hwrap)
  obtain ⟨hbacked, -, -⟩ := wbACE_backed hwrapped
  obtain ⟨-, -, hround⟩ := wbACE_backed reachable_exampleApproved
  have hlocator : exampleWrapped.1.locator = exampleApproved.locator := by
    obtain ⟨-, _, _, -, heq⟩ := wrap_ok_cases hwrap
    rw [heq]
  exact ⟨hbacked, hround _ _ _ _ _ _ _ hwrap hlocator rfl hunwrap⟩

end Pool

end Catalist
