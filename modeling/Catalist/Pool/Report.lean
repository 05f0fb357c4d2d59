import Catalist.Pool.Effects

/-!
# What an oracle report does

`ReportEffects` is the whole of `handleOracleReport`: what an accepted report had to satisfy, and
what it leaves in each part of the storage.
-/

namespace Catalist

open Solidity Ledger

namespace BACE

variable {t t' : BACE} {owner burner : Address} {n b : Nat}

/-- `n` shares of `owner` went to `burner`, where `b` shares were burnt. -/
structure Burnt (t t' : BACE) (owner burner : Address) (n b : Nat) : Prop where
  self : t'.self = t.self
  active : t'.active = t.active
  totalShares : t'.totalShares + b = t.totalShares
  taken : t'.shares owner + n = t.shares owner
  eq : ∀ a, a ≠ owner → a ≠ burner → t'.shares a = t.shares a
  balanced : Balanced t → Balanced t'

theorem burnt_of_move {allowances : Address → Address → Nat} (hne : burner ≠ owner)
    (hn : n ≤ t.shares owner) (hb : b ≤ move t.shares owner burner n burner)
    (hb' : b ≤ t.totalShares)
    (h : t' = { t with
      shares := Function.update (move t.shares owner burner n) burner
        (move t.shares owner burner n burner - b)
      totalShares := t.totalShares - b
      allowances := allowances }) :
    Burnt t t' owner burner n b where
  self := by rw [h]
  active := by rw [h]
  totalShares := by
    rw [h]
    exact Nat.sub_add_cancel hb'
  taken := by
    rw [h]
    simp only [Function.update_of_ne hne.symm, move, Function.update_self]
    exact Nat.sub_add_cancel hn
  eq a hao hab := by
    rw [h]
    simp only [Function.update_of_ne hab]
    exact move_of_ne hao hab
  balanced hbal := by
    have hmove := sum_move (f := t.shares) (Finset.mem_univ owner) (Finset.mem_univ burner) hn
    have hburn := sum_update_add (f := move t.shares owner burner n)
      (move t.shares owner burner n burner - b) (Finset.mem_univ burner)
    rw [h]
    unfold Balanced at hbal ⊢
    simp only
    omega

end BACE

namespace Pool

/-- An accepted report, and what it did. -/
structure ReportEffects (s s' : Pool) (env : Env) (data : OracleReportedData)
    (distribution : StakingRewardsDistribution) (context : OracleReportContext)
    (amounts : PostRebaseAmounts) : Prop where
  /-- Validators never exit the count, and none appears without a deposit. -/
  clValidators_le : s.clValidators ≤ data.clValidators
  reported_le : data.clValidators ≤ s.depositedValidators
  withdrawals_le : amounts.withdrawals ≤ s.withdrawalVaultBalance
  elRewards_le : amounts.elRewards ≤ s.elRewardsVaultBalance
  lock_le_balance :
    context.aceToLockOnWithdrawalQueue ≤ s.balance + amounts.elRewards + amounts.withdrawals
  lock_le_buffered :
    context.aceToLockOnWithdrawalQueue ≤ s.bufferedAce + amounts.elRewards + amounts.withdrawals
  locator : s'.locator = s.locator
  depositedValidators : s'.depositedValidators = s.depositedValidators
  clValidators : s'.clValidators = data.clValidators
  clBalance : s'.clBalance = data.postCLBalance
  withdrawalVaultBalance :
    s'.withdrawalVaultBalance = s.withdrawalVaultBalance - amounts.withdrawals
  elRewardsVaultBalance : s'.elRewardsVaultBalance = s.elRewardsVaultBalance - amounts.elRewards
  balance : s'.balance = s.balance + amounts.elRewards + amounts.withdrawals
    - context.aceToLockOnWithdrawalQueue
  bufferedAce : s'.bufferedAce = s.bufferedAce + amounts.elRewards + amounts.withdrawals
    - context.aceToLockOnWithdrawalQueue
  token : ∃ token,
    BACE.Burnt s.token token s.locator.withdrawalQueue s.locator.burner
      context.sharesToBurnFromWithdrawalQueue context.sharesToBurn ∧
    BACE.Paid token s'.token s.token.self (s.feeRecipients distribution) context.sharesMintedAsFees
  /-- The amounts for the queue come from `prefinalize`. -/
  prepared :
    (context.aceToLockOnWithdrawalQueue = 0 ∧ context.sharesToBurnFromWithdrawalQueue = 0 ∧
      (data.withdrawalFinalizationBatches = [] ∨ s.queue.isPaused env = true)) ∨
    (s.queue.isPaused env = false ∧
      s.queue.prefinalize data.withdrawalFinalizationBatches data.simulatedShareRate
        = .ok (context.aceToLockOnWithdrawalQueue, context.sharesToBurnFromWithdrawalQueue))
  finalized :
    (context.aceToLockOnWithdrawalQueue = 0 ∧ s'.queue = s.queue) ∨
    (0 < context.aceToLockOnWithdrawalQueue ∧
      QueueFinalized s.queue s'.queue (data.withdrawalFinalizationBatches.getLastD 0)
        context.aceToLockOnWithdrawalQueue)
  /-- Both totals fit into a word. -/
  pooled : s.getTotalPooledAce = .ok context.preTotalPooledAce
  pooled_after : s'.getTotalPooledAce = .ok amounts.postTotalPooledAce
  totalShares : context.preTotalShares = s.token.totalShares
  totalShares_after : amounts.postTotalShares = s'.token.totalShares
  preCLBalance : context.preCLBalance
    = s.clBalance + (data.clValidators - s.clValidators) * DEPOSIT_SIZE

variable {s s' : Pool} {env : Env} {data : OracleReportedData}
  {distribution : StakingRewardsDistribution} {context : OracleReportContext}
  {amounts : PostRebaseAmounts}

theorem reportEffects
    (h : s.handleOracleReportInternal env data distribution = .ok (s', context, amounts)) :
    ReportEffects s s' env data distribution context amounts := by
  simp only [handleOracleReportInternal, bind_eq_ok, require_eq_ok, pure_eq_ok, Prod.mk.injEq] at h
  obtain ⟨_, _, _, _, P, hpooled, ⟨s₁, preCLBalance⟩, hstate, _, hcheck,
    ⟨s₂, aceToLock, sharesToBurnFromWithdrawalQueue⟩, hprepare, rebase, hsmoothen, s₃, hcollect,
    s₄, hburn, ⟨s₅, sharesMintedAsFees⟩, hrewards, P', hpooled', _, _, rfl, rfl, rfl⟩ := h
  obtain ⟨hreported, hle, hpre, rfl⟩ := processClStateUpdate_ok_cases hstate
  obtain ⟨hwithdrawalVault, helVault⟩ := checkAccountingOracleReport_ok_cases hcheck
  obtain ⟨hprepared, allowances, burner, hn, rfl⟩ := prepareWithdrawals_ok_cases hprepare
  obtain ⟨hw, he⟩ := smoothenTokenRebase_le hsmoothen
  obtain ⟨hwithdrawals, hlockBalance, hlockBuffered, total, queue, rfl, hfinalized⟩ :=
    collectRewardsAndProcessWithdrawals_ok_cases hcollect (he.trans helVault)
  obtain ⟨hb, hb', burner', rfl⟩ := burnRequestedShares_ok_cases hburn
  obtain ⟨token, hpaid, rfl⟩ := processRewards_ok_cases hrewards
  exact {
    clValidators_le := hle
    reported_le := hreported
    withdrawals_le := hwithdrawals
    elRewards_le := he.trans helVault
    lock_le_balance := hlockBalance
    lock_le_buffered := hlockBuffered
    locator := rfl
    depositedValidators := rfl
    clValidators := by
      show (if s.clValidators < data.clValidators then data.clValidators else s.clValidators) = _
      split
      · rfl
      · omega
    clBalance := rfl
    withdrawalVaultBalance := rfl
    elRewardsVaultBalance := rfl
    balance := rfl
    bufferedAce := rfl
    token := ⟨_, BACE.burnt_of_move s.locator.burner_ne_withdrawalQueue hn hb hb' rfl, hpaid⟩
    prepared := hprepared
    finalized := hfinalized
    pooled := hpooled
    pooled_after := hpooled'
    totalShares := rfl
    totalShares_after := rfl
    preCLBalance := hpre }

theorem handleOracleReport_eq_ok :
    s.handleOracleReport env data distribution = .ok (s', amounts) ↔
      s.token.active = true ∧ ∃ context,
        s.handleOracleReportInternal env data distribution = .ok (s', context, amounts) := by
  simp only [handleOracleReport, bind_eq_ok, require_eq_ok, pure_eq_ok, Prod.mk.injEq]
  constructor
  · rintro ⟨_, hactive, ⟨s₁, context, amounts'⟩, hinternal, rfl, rfl⟩
    exact ⟨hactive, context, hinternal⟩
  · rintro ⟨hactive, context, hinternal⟩
    exact ⟨(), hactive, _, hinternal, rfl, rfl⟩

end Pool

end Catalist
