import Catalist.Pool.Catalist
import Catalist.WithdrawalQueue.Effects

/-!
# What each function of the pool does

One lemma for each function that changes the storage: the guards a successful call has passed,
and the storage it leaves. `ReportEffects` puts the steps of a report together. The proofs about
runs use these lemmas and never unfold a function.
-/

namespace Catalist

open Solidity Ledger

/-! ## Shares that are minted and paid out -/

namespace BACE

variable {t t' t'' : BACE} {payer a : Address} {payees payees' : Set Address} {n m : Nat}

/-- `n` shares were minted to `payer`, who paid shares to `payees`. -/
structure Paid (t t' : BACE) (payer : Address) (payees : Set Address) (n : Nat) : Prop where
  self : t'.self = t.self
  active : t'.active = t.active
  totalShares : t'.totalShares = t.totalShares + n
  le : ∀ a, a ≠ payer → t.shares a ≤ t'.shares a
  eq : ∀ a, a ≠ payer → a ∉ payees → t'.shares a = t.shares a
  balanced : Balanced t → Balanced t'

theorem Paid.refl : Paid t t payer payees 0 where
  self := rfl
  active := rfl
  totalShares := rfl
  le _ _ := Nat.le_refl _
  eq _ _ _ := rfl
  balanced hb := hb

theorem Paid.trans (h : Paid t t' payer payees n) (h' : Paid t' t'' payer payees m) :
    Paid t t'' payer payees (n + m) where
  self := h'.self.trans h.self
  active := h'.active.trans h.active
  totalShares := by rw [h'.totalShares, h.totalShares, Nat.add_assoc]
  le a ha := (h.le a ha).trans (h'.le a ha)
  eq a ha hna := (h'.eq a ha hna).trans (h.eq a ha hna)
  balanced hb := h'.balanced (h.balanced hb)

theorem Paid.mono (h : Paid t t' payer payees n) (hsub : payees ⊆ payees') :
    Paid t t' payer payees' n :=
  { h with eq := fun a ha hna => h.eq a ha fun hmem => hna (hsub hmem) }

theorem paid_of_mintShares {total : Nat} (h : t.mintShares payer n = .ok (t', total)) :
    Paid t t' payer payees n := by
  have hbalanced : Balanced t → Balanced t' := fun hb => hb.mintShares h
  obtain ⟨-, -, rfl⟩ := mintShares_ok_cases h
  exact {
    self := rfl
    active := rfl
    totalShares := rfl
    le := fun a ha => by simp [Function.update_of_ne ha]
    eq := fun a ha _ => by simp [Function.update_of_ne ha]
    balanced := hbalanced }

theorem paid_of_transferSharesInternal {recipient : Address}
    (h : t.transferSharesInternal payer recipient n = .ok t') : Paid t t' payer {recipient} 0 := by
  have hbalanced : Balanced t → Balanced t' := fun hb => hb.transferSharesInternal h
  obtain ⟨-, -, -, -, hle, rfl⟩ := transferSharesInternal_ok_cases h
  exact {
    self := rfl
    active := rfl
    totalShares := rfl
    le := fun a ha => le_move ha
    eq := fun a ha hna => move_of_ne ha fun heq => hna (Set.mem_singleton_iff.mpr heq)
    balanced := hbalanced }

end BACE

/-! ## The rebase limits -/

theorem TokenRebaseLimiterData.increaseAce_le {l l' : TokenRebaseLimiterData}
    {aceAmount consumed : Nat} (h : l.increaseAce aceAmount = .ok (l', consumed)) :
    consumed ≤ aceAmount := by
  unfold increaseAce at h
  split at h
  · cases h
    exact Nat.le_refl _
  · simp only [bind_eq_ok, checkedAdd_eq_ok, ensure_eq_ok, checkedSub_eq_ok, pure_eq_ok,
      Prod.mk.injEq] at h
    obtain ⟨_, ⟨_, rfl⟩, _, _, _, ⟨_, rfl⟩, _, rfl⟩ := h
    omega

/-- Whatever the limit, no more is taken from a vault than was reported for it. -/
theorem smoothenTokenRebase_le {limit T S pre post withdrawalVault elRewardsVault requested aceToLock
    newShares : Nat} {rebase : SmoothedRebase}
    (h : smoothenTokenRebase limit T S pre post withdrawalVault elRewardsVault requested aceToLock
      newShares = .ok rebase) :
    rebase.withdrawals ≤ withdrawalVault ∧ rebase.elRewards ≤ elRewardsVault := by
  simp only [smoothenTokenRebase, bind_eq_ok, pure_eq_ok] at h
  obtain ⟨_, _, _, _, ⟨_, withdrawals⟩, hwithdrawals, ⟨_, elRewards⟩, helRewards, _, _, _, _, _, _,
    _, _, rfl⟩ := h
  exact ⟨TokenRebaseLimiterData.increaseAce_le hwithdrawals,
    TokenRebaseLimiterData.increaseAce_le helRewards⟩

namespace Pool

variable {s s' : Pool} {env : Env} {data : OracleReportedData}
  {distribution : StakingRewardsDistribution} {n : Nat}

/-! ## Initialization -/

theorem bootstrapInitialHolder_ok_cases (hzero : s.token.totalShares = 0)
    (h : s.bootstrapInitialHolder = .ok s') :
    s.balance ≠ 0 ∧ ∃ token total,
      s.token.mintShares INITIAL_TOKEN_HOLDER s.balance = .ok (token, total) ∧
      s' = { s with bufferedAce := s.balance, token := token } := by
  simp only [bootstrapInitialHolder, if_pos hzero, BACE.mintInitialShares, bind_eq_ok, ensure_eq_ok,
    pure_eq_ok] at h
  obtain ⟨_, hbalance, token, ⟨⟨token', total⟩, hmint, _, _, rfl⟩, rfl⟩ := h
  exact ⟨hbalance, _, total, hmint, rfl⟩

theorem initializePool_ok_cases (hzero : s.token.totalShares = 0)
    (h : s.initializePool = .ok s') :
    s.balance ≠ 0 ∧ ∃ token total allowances,
      s.token.mintShares INITIAL_TOKEN_HOLDER s.balance = .ok (token, total) ∧
      s' = { s with bufferedAce := s.balance, token := { token with allowances := allowances } } := by
  simp only [initializePool, bind_eq_ok, pure_eq_ok] at h
  obtain ⟨s₁, hbootstrap, token', happrove, rfl⟩ := h
  obtain ⟨hbalance, token, total, hmint, rfl⟩ := bootstrapInitialHolder_ok_cases hzero hbootstrap
  obtain rfl := BACE.approveInternal_ok_cases happrove
  exact ⟨hbalance, token, total, _, hmint, rfl⟩

/-! ## Deposits of users -/

/-- The shares are bought at the price before the call, and the total is still defined after it. -/
theorem submit_ok_cases {blockNumber : Nat} (h : s.submit env blockNumber = .ok (s', n)) :
    ∃ P P' stakeLimit token total, s.getTotalPooledAce = .ok P ∧
      n = env.value * s.token.totalShares / P ∧
      s.token.mintShares env.sender n = .ok (token, total) ∧
      s'.getTotalPooledAce = .ok P' ∧
      s' = { s with
        balance := s.balance + env.value
        stakeLimit := stakeLimit
        token := token
        bufferedAce := s.bufferedAce + env.value } := by
  simp only [submit, BACE.emitTransferAfterMintingShares, bind_eq_ok, require_eq_ok,
    checkedAdd_eq_ok, pure_eq_ok, BACE.getSharesByPooledAce_eq_ok, BACE.getPooledAceByShares_eq_ok,
    Prod.mk.injEq] at h
  obtain ⟨_, _, stakeLimit, _, _, ⟨_, P, hpooled, _, rfl⟩, ⟨token, total⟩, hmint, _, ⟨_, rfl⟩, _,
    ⟨_, ⟨P', hpooled', _⟩, _⟩, rfl, rfl⟩ := h
  exact ⟨P, P', stakeLimit, token, total, hpooled, rfl, hmint, hpooled', rfl⟩

/-! ## Deposits to the beacon chain -/

theorem unbuffer_ok_cases {depositsCount depositsValue : Nat}
    (h : s.unbuffer depositsCount = .ok (s', depositsValue)) :
    depositsValue = depositsCount * DEPOSIT_SIZE ∧ depositsValue ≤ s.bufferedAce ∧
    s' = { s with
      bufferedAce := s.bufferedAce - depositsValue
      depositedValidators := s.depositedValidators + depositsCount } := by
  unfold unbuffer at h
  split at h
  · simp only [bind_eq_ok, checkedMul_eq_ok, checkedSub_eq_ok, checkedAdd_eq_ok, pure_eq_ok,
      Prod.mk.injEq] at h
    obtain ⟨_, ⟨_, rfl⟩, _, ⟨hle, rfl⟩, _, ⟨_, rfl⟩, rfl, rfl⟩ := h
    exact ⟨rfl, hle, rfl⟩
  · next hzero =>
    obtain ⟨rfl, rfl⟩ := Prod.mk.inj (pure_eq_ok.mp h)
    have hnone : depositsCount = 0 := by omega
    rw [hnone, Nat.zero_mul]
    exact ⟨rfl, Nat.zero_le _, rfl⟩

/-- A deposit turns buffered ace into deposited validators. -/
theorem deposit_ok_cases {maxDepositsCount : Nat} {getStakingModuleMaxDepositsCount : Nat → Nat}
    (h : s.deposit env maxDepositsCount getStakingModuleMaxDepositsCount = .ok s') :
    ∃ depositsCount, depositsCount * DEPOSIT_SIZE ≤ s.bufferedAce ∧
      depositsCount * DEPOSIT_SIZE ≤ s.balance ∧
      s' = { s with
        bufferedAce := s.bufferedAce - depositsCount * DEPOSIT_SIZE
        depositedValidators := s.depositedValidators + depositsCount
        balance := s.balance - depositsCount * DEPOSIT_SIZE } := by
  simp only [deposit, bind_eq_ok, require_eq_ok, pure_eq_ok] at h
  obtain ⟨_, _, _, _, depositableAce, _, ⟨s₁, depositsValue⟩, hunbuffer, _, hle, rfl⟩ := h
  obtain ⟨hvalue, hbuffered, rfl⟩ := unbuffer_ok_cases hunbuffer
  refine ⟨min maxDepositsCount (getStakingModuleMaxDepositsCount depositableAce), ?_⟩
  rw [← hvalue]
  exact ⟨hbuffered, hle, rfl⟩

theorem unsafeChangeDepositedValidators_ok_cases {canPerform : Bool}
    (h : s.unsafeChangeDepositedValidators canPerform n = .ok s') :
    s' = { s with depositedValidators := n } := by
  simp only [unsafeChangeDepositedValidators, bind_eq_ok, require_eq_ok, pure_eq_ok] at h
  obtain ⟨_, _, rfl⟩ := h
  rfl

/-! ## The burner -/

/-- Shares requested to burn go from their owner to the burner. -/
theorem requestBurnShares_ok_cases {caller fromAddr : Address}
    (h : s.requestBurnShares caller fromAddr n = .ok s') :
    ∃ allowances burner, n ≤ s.token.shares fromAddr ∧
      s' = { s with
        token := { s.token with
          shares := move s.token.shares fromAddr s.locator.burner n
          allowances := allowances }
        burner := burner } := by
  simp only [requestBurnShares, requestBurn, BACE.transferSharesFrom, bind_eq_ok, require_eq_ok,
    checkedAdd_eq_ok, pure_eq_ok] at h
  obtain ⟨_, _, token, ⟨_, _, _, hspend, _, htransfer, rfl⟩, _, _, _, ⟨_, rfl⟩, rfl⟩ := h
  obtain ⟨allowances, rfl⟩ := BACE.spendAllowance_shares hspend
  obtain ⟨-, -, -, -, hle, rfl⟩ := BACE.transferSharesInternal_ok_cases htransfer
  exact ⟨allowances, _, hle, rfl⟩

theorem commitCoverShares_ok_cases {sharesToBurn now : Nat}
    (h : s.commitCoverShares sharesToBurn = .ok (s', now)) :
    ∃ burner, s' = { s with burner := burner } := by
  unfold commitCoverShares at h
  split at h
  · simp only [bind_eq_ok, pure_eq_ok, Prod.mk.injEq] at h
    obtain ⟨_, _, _, _, _, _, rfl, _⟩ := h
    exact ⟨_, rfl⟩
  · cases h
    exact ⟨_, rfl⟩

theorem commitNonCoverShares_ok_cases {sharesToBurn now now' : Nat}
    (h : s.commitNonCoverShares sharesToBurn now = .ok (s', now')) :
    ∃ burner, s' = { s with burner := burner } := by
  unfold commitNonCoverShares at h
  split at h
  · simp only [bind_eq_ok, pure_eq_ok, Prod.mk.injEq] at h
    obtain ⟨_, _, _, _, _, _, _, _, rfl, _⟩ := h
    exact ⟨_, rfl⟩
  · cases h
    exact ⟨_, rfl⟩

theorem commitSharesToBurn_ok_cases (h : s.commitSharesToBurn n = .ok s') :
    ∃ burner, s' = { s with burner := burner } := by
  unfold commitSharesToBurn at h
  split at h
  · cases h
    exact ⟨_, rfl⟩
  · simp only [bind_eq_ok, pure_eq_ok] at h
    obtain ⟨_, _, _, _, ⟨s₁, now⟩, hcover, ⟨s₂, now'⟩, hnonCover, _, _, rfl⟩ := h
    obtain ⟨burner, rfl⟩ := commitCoverShares_ok_cases hcover
    obtain ⟨burner', rfl⟩ := commitNonCoverShares_ok_cases hnonCover
    exact ⟨burner', rfl⟩

/-! ## The vaults -/

/-- Rewards that the vault has are sent in full. -/
theorem withdrawRewards_ok_cases {sent : Nat} (hn : n ≤ s.elRewardsVaultBalance)
    (h : s.withdrawRewards n = .ok (s', sent)) :
    ∃ total, s' = { s with
      elRewardsVaultBalance := s.elRewardsVaultBalance - n
      balance := s.balance + n
      totalELRewardsCollected := total } := by
  have hamount : (if n < s.elRewardsVaultBalance then n else s.elRewardsVaultBalance) = n := by
    split
    · rfl
    · omega
  simp only [withdrawRewards, receiveELRewards, hamount] at h
  split at h
  · simp only [bind_eq_ok, checkedAdd_eq_ok, pure_eq_ok, Prod.mk.injEq] at h
    obtain ⟨_, ⟨_, _, rfl⟩, rfl, _⟩ := h
    exact ⟨_, rfl⟩
  · next hzero =>
    cases h
    obtain rfl : n = 0 := by omega
    exact ⟨_, rfl⟩

theorem withdrawWithdrawals_ok_cases (h : s.withdrawWithdrawals n = .ok s') :
    n ≤ s.withdrawalVaultBalance ∧
    s' = { s with
      withdrawalVaultBalance := s.withdrawalVaultBalance - n
      balance := s.balance + n } := by
  simp only [withdrawWithdrawals, bind_eq_ok, require_eq_ok, pure_eq_ok] at h
  obtain ⟨_, _, _, hle, rfl⟩ := h
  exact ⟨hle, rfl⟩

/-! ## The steps of a report -/

theorem processClStateUpdate_ok_cases {pre post postBalance preBalance : Nat}
    (h : s.processClStateUpdate pre post postBalance = .ok (s', preBalance)) :
    post ≤ s.depositedValidators ∧ pre ≤ post ∧
    preBalance = s.clBalance + (post - pre) * DEPOSIT_SIZE ∧
    s' = { s with
      clValidators := if pre < post then post else s.clValidators
      clBalance := postBalance } := by
  simp only [processClStateUpdate, bind_eq_ok, require_eq_ok, checkedMul_eq_ok, checkedAdd_eq_ok,
    pure_eq_ok, Prod.mk.injEq] at h
  obtain ⟨_, hdeposited, _, hle, _, ⟨_, rfl⟩, _, ⟨_, rfl⟩, rfl, rfl⟩ := h
  exact ⟨hdeposited, hle, rfl, rfl⟩

/-- The vaults hold at least what was reported for them. -/
theorem checkAccountingOracleReport_ok_cases {preCLBalance preCLValidators : Nat} {u : Unit}
    (h : s.checkAccountingOracleReport data preCLBalance preCLValidators = .ok u) :
    data.withdrawalVaultBalance ≤ s.withdrawalVaultBalance ∧
    data.elRewardsVaultBalance ≤ s.elRewardsVaultBalance := by
  simp only [checkAccountingOracleReport, bind_eq_ok] at h
  obtain ⟨_, _, hcheck⟩ := h
  obtain ⟨hwithdrawal, hel, -⟩ := s.limits.checkAccountingOracleReport_ok_cases hcheck
  exact ⟨hwithdrawal, hel⟩

theorem requestBurnFromQueue_ok_cases (h : s.requestBurnFromQueue n = .ok s') :
    ∃ allowances burner, n ≤ s.token.shares s.locator.withdrawalQueue ∧
      s' = { s with
        token := { s.token with
          shares := move s.token.shares s.locator.withdrawalQueue s.locator.burner n
          allowances := allowances }
        burner := burner } := by
  unfold requestBurnFromQueue at h
  split at h
  · exact requestBurnShares_ok_cases h
  · next hzero =>
    cases h
    obtain rfl : n = 0 := by omega
    exact ⟨_, _, Nat.zero_le _, by rw [move_zero]⟩

/--
Either nothing is to be finalized, or the amounts are those of `prefinalize`. In both cases the
shares to burn went from the queue to the burner.
-/
theorem prepareWithdrawals_ok_cases {aceToLock sharesToBurn : Nat}
    (h : s.prepareWithdrawals env data = .ok (s', aceToLock, sharesToBurn)) :
    ((aceToLock = 0 ∧ sharesToBurn = 0 ∧
        (data.withdrawalFinalizationBatches = [] ∨ s.queue.isPaused env = true)) ∨
      (s.queue.isPaused env = false ∧
        s.queue.prefinalize data.withdrawalFinalizationBatches data.simulatedShareRate
          = .ok (aceToLock, sharesToBurn))) ∧
    ∃ allowances burner, sharesToBurn ≤ s.token.shares s.locator.withdrawalQueue ∧
      s' = { s with
        token := { s.token with
          shares := move s.token.shares s.locator.withdrawalQueue s.locator.burner sharesToBurn
          allowances := allowances }
        burner := burner } := by
  unfold prepareWithdrawals at h
  split at h
  · simp only [bind_eq_ok, pure_eq_ok, Prod.mk.injEq] at h
    obtain ⟨⟨aceToLock, sharesToBurn⟩, hcalculate, s₁, hrequest, rfl, rfl, rfl⟩ := h
    refine ⟨?_, requestBurnFromQueue_ok_cases hrequest⟩
    unfold calculateWithdrawals at hcalculate
    split at hcalculate
    · next hrunning =>
      simp only [bind_eq_ok, within_eq_ok] at hcalculate
      obtain ⟨_, _, _, _, hprefinalize⟩ := hcalculate
      exact .inr ⟨hrunning, hprefinalize⟩
    · next hpaused =>
      cases hcalculate
      exact .inl ⟨rfl, rfl, .inr (by simpa using hpaused)⟩
  · next hempty =>
    cases h
    refine ⟨.inl ⟨rfl, rfl, .inl (by simpa using hempty)⟩, s.token.allowances, s.burner,
      Nat.zero_le _, ?_⟩
    rw [move_zero]

theorem collectELRewards_ok_cases (hn : n ≤ s.elRewardsVaultBalance)
    (h : s.collectELRewards n = .ok s') :
    ∃ total, s' = { s with
      elRewardsVaultBalance := s.elRewardsVaultBalance - n
      balance := s.balance + n
      totalELRewardsCollected := total } := by
  unfold collectELRewards at h
  split at h
  · simp only [bind_eq_ok, pure_eq_ok] at h
    obtain ⟨⟨s₁, sent⟩, hwithdraw, rfl⟩ := h
    exact withdrawRewards_ok_cases hn hwithdraw
  · next hzero =>
    cases h
    obtain rfl : n = 0 := by omega
    exact ⟨_, rfl⟩

theorem collectWithdrawals_ok_cases (h : s.collectWithdrawals n = .ok s') :
    n ≤ s.withdrawalVaultBalance ∧
    s' = { s with
      withdrawalVaultBalance := s.withdrawalVaultBalance - n
      balance := s.balance + n } := by
  unfold collectWithdrawals at h
  split at h
  · exact withdrawWithdrawals_ok_cases h
  · next hzero =>
    cases h
    obtain rfl : n = 0 := by omega
    exact ⟨Nat.zero_le _, rfl⟩

/-- What finalizing the requests up to `last` with `aceToLock` does to the queue. -/
structure QueueFinalized (q q' : WithdrawalQueue) (last aceToLock : Nat) : Prop where
  le_lastRequestId : last ≤ q.lastRequestId
  lt_last : q.lastFinalizedRequestId < last
  queue : q'.queue = q.queue
  lastRequestId : q'.lastRequestId = q.lastRequestId
  lastFinalizedRequestId : q'.lastFinalizedRequestId = last
  lockedAceAmount : q'.lockedAceAmount = q.lockedAceAmount + aceToLock
  balance : q'.balance = q.balance + aceToLock

/-- The queue is only called if there is ace to lock. -/
theorem finalizeWithdrawals_ok_cases {batches : List Nat} {m aceToLock : Nat}
    (h : s.finalizeWithdrawals env batches m aceToLock = .ok s') :
    aceToLock ≤ s.balance ∧ ∃ queue,
      s' = { s with balance := s.balance - aceToLock, queue := queue } ∧
      ((aceToLock = 0 ∧ queue = s.queue) ∨
        (0 < aceToLock ∧ QueueFinalized s.queue queue (batches.getLastD 0) aceToLock)) := by
  unfold finalizeWithdrawals at h
  split at h
  · next hpos =>
    simp only [bind_eq_ok, require_eq_ok, within_eq_ok, getIndex_eq_ok, pure_eq_ok] at h
    obtain ⟨last, hlast, _, hle, queue, hfinalize, rfl⟩ := h
    rw [← List.getLast?_eq_getElem?] at hlast
    obtain ⟨hleLast, hlt, rfl⟩ := WithdrawalQueue.finalize_ok_cases hfinalize
    refine ⟨hle, _, rfl, .inr ⟨hpos, ?_⟩⟩
    rw [List.getLastD_eq_getLast?, hlast, Option.getD_some]
    exact {
      le_lastRequestId := hleLast
      lt_last := hlt
      queue := rfl
      lastRequestId := rfl
      lastFinalizedRequestId := rfl
      lockedAceAmount := rfl
      balance := rfl }
  · next hzero =>
    cases h
    obtain rfl : aceToLock = 0 := by omega
    exact ⟨Nat.zero_le _, _, rfl, .inl ⟨rfl, rfl⟩⟩

/-- Rewards and withdrawals come in, and what the queue needs goes out. -/
theorem collectRewardsAndProcessWithdrawals_ok_cases {w e m aceToLock : Nat} {batches : List Nat}
    (h : s.collectRewardsAndProcessWithdrawals env w e batches m aceToLock = .ok s')
    (he : e ≤ s.elRewardsVaultBalance) :
    w ≤ s.withdrawalVaultBalance ∧ aceToLock ≤ s.balance + e + w ∧
    aceToLock ≤ s.bufferedAce + e + w ∧ ∃ total queue,
      s' = { s with
        elRewardsVaultBalance := s.elRewardsVaultBalance - e
        withdrawalVaultBalance := s.withdrawalVaultBalance - w
        totalELRewardsCollected := total
        balance := s.balance + e + w - aceToLock
        queue := queue
        bufferedAce := s.bufferedAce + e + w - aceToLock } ∧
      ((aceToLock = 0 ∧ queue = s.queue) ∨
        (0 < aceToLock ∧ QueueFinalized s.queue queue (batches.getLastD 0) aceToLock)) := by
  simp only [collectRewardsAndProcessWithdrawals, bind_eq_ok, checkedAdd_eq_ok, checkedSub_eq_ok,
    pure_eq_ok] at h
  obtain ⟨s₁, hrewards, s₂, hwithdrawals, s₃, hfinalize, _, ⟨_, rfl⟩, _, ⟨_, rfl⟩, _, ⟨hle, rfl⟩,
    rfl⟩ := h
  obtain ⟨total, rfl⟩ := collectELRewards_ok_cases he hrewards
  obtain ⟨hw, rfl⟩ := collectWithdrawals_ok_cases hwithdrawals
  obtain ⟨hbalance, queue, rfl, hqueue⟩ := finalizeWithdrawals_ok_cases hfinalize
  exact ⟨hw, hbalance, hle, total, queue, rfl, hqueue⟩

theorem burnRequestedShares_ok_cases (h : s.burnRequestedShares n = .ok s') :
    n ≤ s.token.shares s.locator.burner ∧ n ≤ s.token.totalShares ∧ ∃ burner,
      s' = { s with
        burner := burner
        token := { s.token with
          totalShares := s.token.totalShares - n
          shares := Function.update s.token.shares s.locator.burner
            (s.token.shares s.locator.burner - n) } } := by
  unfold burnRequestedShares at h
  split at h
  · simp only [bind_eq_ok, pure_eq_ok] at h
    obtain ⟨s₁, hcommit, ⟨token, total⟩, hburn, rfl⟩ := h
    obtain ⟨burner, rfl⟩ := commitSharesToBurn_ok_cases hcommit
    obtain ⟨hle, hle', -, rfl⟩ := BACE.burnShares_ok_cases hburn
    exact ⟨hle, hle', burner, rfl⟩
  · next hzero =>
    cases h
    obtain rfl : n = 0 := by omega
    refine ⟨Nat.zero_le _, Nat.zero_le _, s.burner, ?_⟩
    simp

/-- The induction is over the modules that are left. -/
theorem transferModuleRewards_ok_cases {totalFee totalRewards given given' : Nat}
    {modules : List (Address × Nat)}
    (h : transferModuleRewards totalFee totalRewards s given modules = .ok (s', given')) :
    ∃ token, BACE.Paid s.token token s.token.self {a | a ∈ modules.map Prod.fst} 0 ∧
      s' = { s with token := token } := by
  induction modules generalizing s given with
  | nil =>
    cases h
    exact ⟨_, BACE.Paid.refl, rfl⟩
  | cons module modules ih =>
    obtain ⟨recipient, moduleFee⟩ := module
    unfold transferModuleRewards at h
    split at h
    · simp only [bind_eq_ok] at h
      obtain ⟨_, _, reward, _, token₁, htransfer, _, _, _, _, hrest⟩ := h
      obtain ⟨token, hpaid, rfl⟩ := ih hrest
      have hfirst := BACE.paid_of_transferSharesInternal htransfer
      rw [show ({ s with token := token₁ } : Pool).token = token₁ from rfl, hfirst.self] at hpaid
      refine ⟨token, (hfirst.mono ?_).trans (hpaid.mono ?_), rfl⟩
      · simp
      · intro a ha
        exact List.mem_cons_of_mem _ ha
    · obtain ⟨token, hpaid, rfl⟩ := ih h
      exact ⟨token, hpaid.mono fun a ha => List.mem_cons_of_mem _ ha, rfl⟩

/-- Who may be paid a part of the fee. -/
def feeRecipients (s : Pool) (distribution : StakingRewardsDistribution) : Set Address :=
  {a | a ∈ distribution.recipients ∨ a = s.locator.treasury}

theorem distributeFee_ok_cases {T S rewards : Nat}
    (h : s.distributeFee distribution T S rewards = .ok (s', n)) :
    ∃ token, BACE.Paid s.token token s.token.self (s.feeRecipients distribution) n ∧
      s' = { s with token := token } := by
  unfold distributeFee at h
  simp only [bind_eq_ok] at h
  obtain ⟨_, _, _, _, h⟩ := h
  split at h
  · simp only [transferTreasuryRewards, bind_eq_ok, pure_eq_ok, Prod.mk.injEq] at h
    obtain ⟨_, _, ⟨token₁, total⟩, hmint, ⟨s₂, given⟩, hmodules, treasuryReward, _, _, ⟨token₃,
      htreasury, _, _, rfl⟩, rfl, rfl⟩ := h
    obtain ⟨token₂, hpaid, rfl⟩ := transferModuleRewards_ok_cases hmodules
    have hminted : BACE.Paid s.token token₁ s.token.self (s.feeRecipients distribution) _ :=
      BACE.paid_of_mintShares hmint
    rw [show ({ s with token := token₁ } : Pool).token = token₁ from rfl, hminted.self] at hpaid
    rw [show ({ s with token := token₂ } : Pool).token.self = s.token.self from
      hpaid.self.trans hminted.self] at htreasury
    have hlast := BACE.paid_of_transferSharesInternal htreasury
    refine ⟨token₃, (hminted.trans (hpaid.mono ?_)).trans (hlast.mono ?_), rfl⟩
    · intro a ha
      obtain ⟨⟨_, fee⟩, hmem, rfl⟩ := List.mem_map.mp ha
      exact .inl (List.of_mem_zip hmem).1
    · rintro a rfl
      exact .inr rfl
  · cases h
    exact ⟨_, BACE.Paid.refl, rfl⟩

theorem processRewards_ok_cases {preCL T S postCL w e : Nat}
    (h : s.processRewards distribution preCL T S postCL w e = .ok (s', n)) :
    ∃ token, BACE.Paid s.token token s.token.self (s.feeRecipients distribution) n ∧
      s' = { s with token := token } := by
  unfold processRewards at h
  simp only [bind_eq_ok] at h
  obtain ⟨_, _, h⟩ := h
  split at h
  · simp only [bind_eq_ok] at h
    obtain ⟨_, _, h⟩ := h
    exact distributeFee_ok_cases h
  · cases h
    exact ⟨_, BACE.Paid.refl, rfl⟩

/-! ## Withdrawal requests -/

/--
A request moves the shares of its amount from `source` to the queue, and records as many of them as
its field has room for.
-/
def Enqueued (s s' : Pool) (env : Env) (source : Address) : Prop :=
  ∃ n amount owner requestId allowances queue wbACE, n ≤ s.token.shares source ∧
    s.queue.enqueue env amount (n % 2 ^ 128) owner = .ok (queue, requestId) ∧
    s' = { s with
      token := { s.token with
        shares := move s.token.shares source s.locator.withdrawalQueue n
        allowances := allowances }
      queue := queue
      wbACE := wbACE }

/-- The amount is turned into shares twice, at the same rate. -/
theorem requestWithdrawal_ok_cases {amount requestId : Nat} {owner : Address}
    (h : s.requestWithdrawal env amount owner = .ok (s', requestId)) :
    Enqueued s s' env env.sender := by
  simp only [requestWithdrawal, enqueueRequest, BACE.transferFrom, BACE.transferInternal,
    bind_eq_ok, within_eq_ok, pure_eq_ok, Prod.mk.injEq, BACE.getSharesByPooledAce_eq_ok] at h
  obtain ⟨token, ⟨_, hspend, _, ⟨_, P, hP, _, rfl⟩, htransfer⟩, _, ⟨_, P', hP', _, rfl⟩,
    ⟨queue, id⟩, henqueue, rfl, rfl⟩ := h
  obtain ⟨allowances, rfl⟩ := BACE.spendAllowance_shares hspend
  obtain ⟨-, -, -, -, hle, rfl⟩ := BACE.transferSharesInternal_ok_cases htransfer
  obtain rfl : P = P' := Except.ok.inj (hP.symm.trans hP')
  exact ⟨_, _, owner, id, allowances, queue, s.wbACE, hle, henqueue, rfl⟩

theorem unwrap_ok_cases {caller : Address} {amountOfWbACE amountOfBACE : Nat}
    (h : s.unwrap caller amountOfWbACE = .ok (s', amountOfBACE)) :
    ∃ wbACE token, s.token.transfer s.getTotalPooledAce s.locator.wbACE caller amountOfBACE
        = .ok token ∧
      s' = { s with wbACE := wbACE, token := token } := by
  simp only [unwrap, bind_eq_ok, pure_eq_ok, Prod.mk.injEq] at h
  obtain ⟨_, _, _, _, wbACE, _, token, htransfer, rfl, rfl⟩ := h
  exact ⟨wbACE, token, htransfer, rfl⟩

theorem requestWithdrawalWbACE_ok_cases {amount requestId : Nat} {owner : Address}
    (h : s.requestWithdrawalWbACE env amount owner = .ok (s', requestId)) :
    Enqueued s s' env s.locator.wbACE := by
  simp only [requestWithdrawalWbACE, enqueueRequest, bind_eq_ok, within_eq_ok, pure_eq_ok,
    Prod.mk.injEq, BACE.getSharesByPooledAce_eq_ok] at h
  obtain ⟨_, _, ⟨s₁, amountOfBACE⟩, hunwrap, _, _, _, ⟨_, P', hP', _, rfl⟩, ⟨queue, id⟩, henqueue,
    rfl, rfl⟩ := h
  obtain ⟨wbACE, token, htransfer, rfl⟩ := unwrap_ok_cases hunwrap
  simp only [BACE.transfer, BACE.transferInternal, bind_eq_ok,
    BACE.getSharesByPooledAce_eq_ok] at htransfer
  obtain ⟨_, ⟨_, P, hP, _, rfl⟩, htransfer⟩ := htransfer
  obtain ⟨-, -, -, -, hle, rfl⟩ := BACE.transferSharesInternal_ok_cases htransfer
  obtain rfl : P = P' := Except.ok.inj (hP.symm.trans hP')
  exact ⟨_, _, owner, id, _, queue, wbACE, hle, henqueue, rfl⟩

section loops

variable {R : Pool → Pool → Prop} {owner : Address} {amounts requestIds : List Nat}

/-- What holds of each request, and of sequences, holds of the loop. -/
theorem requestWithdrawalsLoop_rel (hrefl : ∀ s, R s s)
    (htrans : ∀ s₁ s₂ s₃, R s₁ s₂ → R s₂ s₃ → R s₁ s₃)
    (hone : ∀ s s', Enqueued s s' env env.sender → R s s')
    (h : requestWithdrawalsLoop env owner s amounts = .ok (s', requestIds)) : R s s' := by
  induction amounts generalizing s requestIds with
  | nil =>
    cases h
    exact hrefl _
  | cons amount amounts ih =>
    simp only [requestWithdrawalsLoop, bind_eq_ok, pure_eq_ok, Prod.mk.injEq] at h
    obtain ⟨_, _, ⟨s₁, requestId⟩, hrequest, ⟨s₂, requestIds⟩, hrest, rfl, rfl⟩ := h
    exact htrans _ _ _ (hone _ _ (requestWithdrawal_ok_cases hrequest)) (ih hrest)

theorem requestWithdrawalsWbACELoop_rel (hrefl : ∀ s, R s s)
    (htrans : ∀ s₁ s₂ s₃, R s₁ s₂ → R s₂ s₃ → R s₁ s₃)
    (hone : ∀ s s', Enqueued s s' env s.locator.wbACE → R s s')
    (h : requestWithdrawalsWbACELoop env owner s amounts = .ok (s', requestIds)) : R s s' := by
  induction amounts generalizing s requestIds with
  | nil =>
    cases h
    exact hrefl _
  | cons amount amounts ih =>
    simp only [requestWithdrawalsWbACELoop, bind_eq_ok, pure_eq_ok, Prod.mk.injEq] at h
    obtain ⟨⟨s₁, requestId⟩, hrequest, ⟨s₂, requestIds⟩, hrest, rfl, rfl⟩ := h
    exact htrans _ _ _ (hone _ _ (requestWithdrawalWbACE_ok_cases hrequest)) (ih hrest)

end loops

theorem requestWithdrawals_ok_cases {amounts requestIds : List Nat} {owner : Address}
    (h : s.requestWithdrawals env amounts owner = .ok (s', requestIds)) :
    ∃ owner, requestWithdrawalsLoop env owner s amounts = .ok (s', requestIds) := by
  simp only [requestWithdrawals, bind_eq_ok, require_eq_ok] at h
  obtain ⟨_, _, h⟩ := h
  exact ⟨_, h⟩

theorem requestWithdrawalsWbACE_ok_cases {amounts requestIds : List Nat} {owner : Address}
    (h : s.requestWithdrawalsWbACE env amounts owner = .ok (s', requestIds)) :
    ∃ owner, requestWithdrawalsWbACELoop env owner s amounts = .ok (s', requestIds) := by
  simp only [requestWithdrawalsWbACE, bind_eq_ok, require_eq_ok] at h
  obtain ⟨_, _, h⟩ := h
  exact ⟨_, h⟩

end Pool

end Catalist
