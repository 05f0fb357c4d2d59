import Catalist.Pool.Base
import Catalist.Lib.Outcome
import Mathlib.Tactic.Ring

/-!
# The positive rebase limiter

`PositiveTokenRebaseLimiter.sol`, and `smoothenTokenRebase` of `OracleReportSanityChecker.sol`,
which runs the limiter over an oracle report: the change of the balance on the consensus layer,
the withdrawals and the rewards that may be collected, and the shares that may be burnt, before
and after ace is locked for withdrawals.

All steps but the last keep the pooled ace at most at the limit, so the rate that the burn limit
divides by stays below `1 + limit` and no subtraction underflows; and a lower amount of pooled ace
leaves room for more shares to burn.
-/

namespace Catalist

open Solidity

/-- 100% -/
def LIMITER_PRECISION_BASE : Nat := 10 ^ 9

/-- Disabled limit -/
def UNLIMITED_REBASE : Nat := 2 ^ 64 - 1

structure TokenRebaseLimiterData where
  preTotalPooledAce : Nat
  preTotalShares : Nat
  currentTotalPooledAce : Nat
  positiveRebaseLimit : Nat
  maxTotalPooledAce : Nat
deriving DecidableEq, Repr

/-- `initLimiterState` -/
def initLimiterState (rebaseLimit preTotalPooledAce preTotalShares : Nat) :
    Call PoolError TokenRebaseLimiterData := do
  require (rebaseLimit ≠ 0) .tooLowTokenRebaseLimit
  require (rebaseLimit ≤ UNLIMITED_REBASE) .tooHighTokenRebaseLimit
  let rebaseLimit := if preTotalPooledAce = 0 then UNLIMITED_REBASE else rebaseLimit
  if rebaseLimit = UNLIMITED_REBASE then
    return {
      preTotalPooledAce := preTotalPooledAce
      preTotalShares := preTotalShares
      currentTotalPooledAce := preTotalPooledAce
      positiveRebaseLimit := rebaseLimit
      maxTotalPooledAce := 2 ^ 256 - 1 }
  else do
    let scaled ← checkedMul 256 rebaseLimit preTotalPooledAce
    let increase ← checkedDiv scaled LIMITER_PRECISION_BASE
    let maxTotalPooledAce ← checkedAdd 256 preTotalPooledAce increase
    return {
      preTotalPooledAce := preTotalPooledAce
      preTotalShares := preTotalShares
      currentTotalPooledAce := preTotalPooledAce
      positiveRebaseLimit := rebaseLimit
      maxTotalPooledAce := maxTotalPooledAce }

namespace TokenRebaseLimiterData

variable (l : TokenRebaseLimiterData)

def isLimitReached : Bool := l.maxTotalPooledAce ≤ l.currentTotalPooledAce

/-- Decrease total pooled ace by the given amount of ace. -/
def decreaseAce (aceAmount : Nat) : Call PoolError TokenRebaseLimiterData := do
  if l.positiveRebaseLimit = UNLIMITED_REBASE then return l
  else do
    require (aceAmount ≤ l.currentTotalPooledAce) .negativeTotalPooledAce
    let currentTotalPooledAce ← checkedSub l.currentTotalPooledAce aceAmount
    return { l with currentTotalPooledAce := currentTotalPooledAce }

/-- Increase total pooled ace up to the limit and return the consumed value. -/
def increaseAce (aceAmount : Nat) : Call PoolError (TokenRebaseLimiterData × Nat) := do
  if l.positiveRebaseLimit = UNLIMITED_REBASE then return (l, aceAmount)
  else do
    let prevPooledAce := l.currentTotalPooledAce
    let increased ← checkedAdd 256 l.currentTotalPooledAce aceAmount
    let currentTotalPooledAce := min increased l.maxTotalPooledAce
    ensure (prevPooledAce ≤ currentTotalPooledAce)
    let consumedAce ← checkedSub currentTotalPooledAce prevPooledAce
    return ({ l with currentTotalPooledAce := currentTotalPooledAce }, consumedAce)

/-- Shares to burn, not exceeding the limit. -/
def getSharesToBurnLimit : Call PoolError Nat := do
  if l.positiveRebaseLimit = UNLIMITED_REBASE then return l.preTotalShares
  else if l.isLimitReached = true then return 0
  else do
    let rebaseLimitPlus1 ← checkedAdd 256 l.positiveRebaseLimit LIMITER_PRECISION_BASE
    let scaled ← checkedMul 256 l.currentTotalPooledAce LIMITER_PRECISION_BASE
    let pooledAceRate ← checkedDiv scaled l.preTotalPooledAce
    let room ← checkedSub rebaseLimitPlus1 pooledAceRate
    let product ← checkedMul 256 l.preTotalShares room
    checkedDiv product rebaseLimitPlus1

/-- The first step of `smoothenTokenRebase`. -/
def applyCLBalanceChange (preCLBalance postCLBalance : Nat) :
    Call PoolError TokenRebaseLimiterData := do
  if postCLBalance < preCLBalance then l.decreaseAce (preCLBalance - postCLBalance)
  else do
    let (l, _) ← l.increaseAce (postCLBalance - preCLBalance)
    return l

end TokenRebaseLimiterData

/-- What `smoothenTokenRebase` returns. -/
structure SmoothedRebase where
  /-- ace that may be taken from the withdrawals vault -/
  withdrawals : Nat
  /-- ace that may be taken from the rewards vault -/
  elRewards : Nat
  /-- shares to burn if no ace were locked for withdrawals -/
  simulatedSharesToBurn : Nat
  sharesToBurn : Nat
deriving DecidableEq, Repr

/-- `smoothenTokenRebase` -/
def smoothenTokenRebase (maxPositiveTokenRebase preTotalPooledAce preTotalShares preCLBalance
    postCLBalance withdrawalVaultBalance elRewardsVaultBalance sharesRequestedToBurn
    aceToLockForWithdrawals newSharesToBurnForWithdrawals : Nat) :
    Call PoolError SmoothedRebase := do
  let l ← initLimiterState maxPositiveTokenRebase preTotalPooledAce preTotalShares
  let l ← l.applyCLBalanceChange preCLBalance postCLBalance
  let (l, withdrawals) ← l.increaseAce withdrawalVaultBalance
  let (l, elRewards) ← l.increaseAce elRewardsVaultBalance
  let simulatedLimit ← l.getSharesToBurnLimit
  let l ← l.decreaseAce aceToLockForWithdrawals
  let limit ← l.getSharesToBurnLimit
  let requested ← checkedAdd 256 newSharesToBurnForWithdrawals sharesRequestedToBurn
  return {
    withdrawals := withdrawals
    elRewards := elRewards
    simulatedSharesToBurn := min simulatedLimit sharesRequestedToBurn
    sharesToBurn := min limit requested }

/-! ## The burn limit as a function -/

/--
The shares that may be burnt while `current` ace is pooled, from `T` pooled ace and `S` shares
before the report.
-/
def burnLimit (R T S current : Nat) : Nat :=
  if T + R * T / LIMITER_PRECISION_BASE ≤ current then 0
  else S * (R + LIMITER_PRECISION_BASE - current * LIMITER_PRECISION_BASE / T)
    / (R + LIMITER_PRECISION_BASE)

section burnLimit

variable {R T S current : Nat}

/-- Below the limit the rate is at most `1 + R`. -/
theorem rate_le (h : current ≤ T + R * T / LIMITER_PRECISION_BASE) :
    current * LIMITER_PRECISION_BASE / T ≤ R + LIMITER_PRECISION_BASE := by
  refine Nat.div_le_of_le_mul ?_
  calc current * LIMITER_PRECISION_BASE
      ≤ (T + R * T / LIMITER_PRECISION_BASE) * LIMITER_PRECISION_BASE := Nat.mul_le_mul_right _ h
    _ = T * LIMITER_PRECISION_BASE
          + R * T / LIMITER_PRECISION_BASE * LIMITER_PRECISION_BASE := Nat.add_mul _ _ _
    _ ≤ T * LIMITER_PRECISION_BASE + R * T := Nat.add_le_add_left (Nat.div_mul_le_self _ _) _
    _ = T * (R + LIMITER_PRECISION_BASE) := by ring

theorem burnLimit_le : burnLimit R T S current ≤ S := by
  unfold burnLimit
  split
  · exact Nat.zero_le S
  · refine Nat.div_le_of_le_mul ?_
    rw [Nat.mul_comm (R + LIMITER_PRECISION_BASE)]
    exact Nat.mul_le_mul_left S (Nat.sub_le _ _)

/-- With less ace pooled, more shares may be burnt. -/
theorem burnLimit_antitone {lower : Nat} (h : lower ≤ current) :
    burnLimit R T S current ≤ burnLimit R T S lower := by
  unfold burnLimit
  split
  · exact Nat.zero_le _
  · next hroom =>
    rw [if_neg (by omega)]
    have hrate : lower * LIMITER_PRECISION_BASE / T ≤ current * LIMITER_PRECISION_BASE / T :=
      Nat.div_le_div_right (Nat.mul_le_mul_right _ h)
    exact Nat.div_le_div_right (Nat.mul_le_mul_left S (Nat.sub_le_sub_left hrate _))

/-- The remaining shares are worth at most `1 + R` times what they were worth before. -/
theorem rate_le_of_burn {n : Nat} (h : current ≤ T + R * T / LIMITER_PRECISION_BASE)
    (hn : n ≤ burnLimit R T S current) :
    S * (current * LIMITER_PRECISION_BASE / T) ≤ (S - n) * (LIMITER_PRECISION_BASE + R) := by
  have hrate := rate_le h
  have hburnt : burnLimit R T S current * (R + LIMITER_PRECISION_BASE)
      ≤ S * (R + LIMITER_PRECISION_BASE - current * LIMITER_PRECISION_BASE / T) := by
    unfold burnLimit
    split
    · rw [Nat.zero_mul]
      exact Nat.zero_le _
    · exact Nat.div_mul_le_self _ _
  rw [Nat.add_comm LIMITER_PRECISION_BASE]
  calc S * (current * LIMITER_PRECISION_BASE / T)
      = S * (R + LIMITER_PRECISION_BASE)
          - S * (R + LIMITER_PRECISION_BASE - current * LIMITER_PRECISION_BASE / T) := by
        rw [← Nat.mul_sub, Nat.sub_sub_self hrate]
    _ ≤ S * (R + LIMITER_PRECISION_BASE)
          - burnLimit R T S current * (R + LIMITER_PRECISION_BASE) := Nat.sub_le_sub_left hburnt _
    _ ≤ S * (R + LIMITER_PRECISION_BASE) - n * (R + LIMITER_PRECISION_BASE) :=
        Nat.sub_le_sub_left (Nat.mul_le_mul_right _ hn) _
    _ = (S - n) * (R + LIMITER_PRECISION_BASE) := (Nat.sub_mul _ _ _).symm

end burnLimit

/-! ## One lemma for each function -/

/-- The reverts that callers of the limiter have to expect. -/
def LimiterFailure (r : Revert PoolError) : Prop :=
  r = .error .tooLowTokenRebaseLimit ∨ r = .error .tooHighTokenRebaseLimit ∨
  r = .error .negativeTotalPooledAce ∨ r = .panic .overflow

theorem limiterFailure_overflow : LimiterFailure (.panic .overflow) := .inr (.inr (.inr rfl))

namespace TokenRebaseLimiterData

/-- A limiter for the limit `R`, from `T` pooled ace and `S` shares, that has kept to its limit. -/
structure Limited (l : TokenRebaseLimiterData) (R T S : Nat) : Prop where
  limit : l.positiveRebaseLimit = R
  preTotalPooledAce : l.preTotalPooledAce = T
  preTotalShares : l.preTotalShares = S
  max : l.maxTotalPooledAce = T + R * T / LIMITER_PRECISION_BASE
  current_le : l.currentTotalPooledAce ≤ T + R * T / LIMITER_PRECISION_BASE

variable {l : TokenRebaseLimiterData} {R T S aceAmount : Nat}

theorem initLimiterState_ensures (hR : R ≠ UNLIMITED_REBASE) (hT : T ≠ 0) :
    Ensures LimiterFailure (initLimiterState R T S) fun l =>
      Limited l R T S ∧ l.currentTotalPooledAce = T := by
  unfold initLimiterState
  refine (ensures_require (.inl rfl)).bind fun _ _ => ?_
  refine (ensures_require (.inr (.inl rfl))).bind fun _ _ => ?_
  simp only [if_neg hT, if_neg hR]
  refine (ensures_checkedMul limiterFailure_overflow).bind fun scaled hscaled => ?_
  refine (ensures_checkedDiv (by decide)).bind fun increase hincrease => ?_
  refine (ensures_checkedAdd limiterFailure_overflow).bind fun max hmax => ensures_pure ?_
  subst hscaled hincrease hmax
  exact ⟨⟨rfl, rfl, rfl, rfl, Nat.le_add_right _ _⟩, rfl⟩

theorem Limited.decreaseAce (h : Limited l R T S) (hR : R ≠ UNLIMITED_REBASE) :
    Ensures LimiterFailure (l.decreaseAce aceAmount) fun l' =>
      Limited l' R T S ∧ l'.currentTotalPooledAce + aceAmount = l.currentTotalPooledAce := by
  unfold TokenRebaseLimiterData.decreaseAce
  rw [if_neg (by rwa [h.limit])]
  refine (ensures_require (.inr (.inr (.inl rfl)))).bind fun _ hle => ?_
  refine (ensures_checkedSub hle).bind fun current hcurrent => ensures_pure ?_
  subst hcurrent
  exact ⟨{ h with current_le := (Nat.sub_le _ _).trans h.current_le }, Nat.sub_add_cancel hle⟩

theorem Limited.increaseAce (h : Limited l R T S) (hR : R ≠ UNLIMITED_REBASE) :
    Ensures LimiterFailure (l.increaseAce aceAmount) fun r =>
      Limited r.1 R T S ∧ r.1.currentTotalPooledAce = l.currentTotalPooledAce + r.2 ∧
      r.2 = min aceAmount (T + R * T / LIMITER_PRECISION_BASE - l.currentTotalPooledAce) := by
  unfold TokenRebaseLimiterData.increaseAce
  rw [if_neg (by rwa [h.limit])]
  have hle := h.current_le
  refine (ensures_checkedAdd limiterFailure_overflow).bind fun increased hincreased => ?_
  subst hincreased
  rw [h.max]
  have hgrows : l.currentTotalPooledAce
      ≤ min (l.currentTotalPooledAce + aceAmount) (T + R * T / LIMITER_PRECISION_BASE) := by
    omega
  refine (ensures_ensure hgrows).bind fun _ _ => ?_
  refine (ensures_checkedSub hgrows).bind fun consumed hconsumed => ensures_pure ?_
  subst hconsumed
  refine ⟨{ h with max := rfl, current_le := Nat.min_le_right _ _ }, ?_, ?_⟩
  · simp only
    omega
  · simp only
    omega

theorem Limited.getSharesToBurnLimit (h : Limited l R T S) (hR : R ≠ UNLIMITED_REBASE)
    (hT : T ≠ 0) :
    Ensures LimiterFailure l.getSharesToBurnLimit fun n =>
      n = burnLimit R T S l.currentTotalPooledAce := by
  unfold TokenRebaseLimiterData.getSharesToBurnLimit isLimitReached
  rw [if_neg (by rwa [h.limit]), h.max]
  split
  · next hreached =>
    rw [decide_eq_true_eq] at hreached
    exact ensures_pure (by rw [burnLimit, if_pos hreached])
  · next hroom =>
    rw [decide_eq_true_eq] at hroom
    rw [h.limit, h.preTotalPooledAce, h.preTotalShares]
    refine (ensures_checkedAdd limiterFailure_overflow).bind fun plus1 hplus1 => ?_
    refine (ensures_checkedMul limiterFailure_overflow).bind fun scaled hscaled => ?_
    refine (ensures_checkedDiv hT).bind fun rate hrate => ?_
    subst hplus1 hscaled hrate
    refine (ensures_checkedSub (rate_le h.current_le)).bind fun room hroom => ?_
    refine (ensures_checkedMul limiterFailure_overflow).bind fun product hproduct => ?_
    subst hroom hproduct
    have hne : R + LIMITER_PRECISION_BASE ≠ 0 := by
      unfold LIMITER_PRECISION_BASE
      omega
    refine (ensures_checkedDiv hne).mono fun n hn => ?_
    rw [hn, burnLimit, if_neg hroom]

/-- A change within the limit is applied in full. -/
theorem Limited.applyCLBalanceChange {preCLBalance postCLBalance : Nat} (h : Limited l R T S)
    (hR : R ≠ UNLIMITED_REBASE) (hcurrent : l.currentTotalPooledAce = T)
    (hrise : postCLBalance ≤ preCLBalance + R * T / LIMITER_PRECISION_BASE) :
    Ensures LimiterFailure (l.applyCLBalanceChange preCLBalance postCLBalance) fun l' =>
      Limited l' R T S ∧ l'.currentTotalPooledAce + preCLBalance = T + postCLBalance := by
  unfold TokenRebaseLimiterData.applyCLBalanceChange
  split
  · next hlt =>
    refine (h.decreaseAce hR).mono fun l' hl' => ⟨hl'.1, ?_⟩
    omega
  · next hge =>
    refine (h.increaseAce hR).bind fun r hr => ensures_pure ⟨hr.1, ?_⟩
    obtain ⟨-, hincreased, hconsumed⟩ := hr
    omega

end TokenRebaseLimiterData

/-! ## The whole sequence -/

section smoothenTokenRebase

variable {R T S preCLBalance postCLBalance : Nat}
  (withdrawalVaultBalance elRewardsVaultBalance sharesRequestedToBurn aceToLock newSharesToBurn : Nat)

/-- The pooled ace before and after the lock, and the burns that go with them. -/
theorem smoothenTokenRebase_ensures (hR : R ≠ UNLIMITED_REBASE) (hT : T ≠ 0)
    (hrise : postCLBalance ≤ preCLBalance + R * T / LIMITER_PRECISION_BASE) :
    Ensures LimiterFailure
      (smoothenTokenRebase R T S preCLBalance postCLBalance withdrawalVaultBalance
        elRewardsVaultBalance sharesRequestedToBurn aceToLock newSharesToBurn)
      fun rebase => ∃ before after : Nat,
        before ≤ T + R * T / LIMITER_PRECISION_BASE ∧
        before + preCLBalance = T + postCLBalance + rebase.withdrawals + rebase.elRewards ∧
        after + aceToLock = before ∧
        rebase.withdrawals ≤ withdrawalVaultBalance ∧ rebase.elRewards ≤ elRewardsVaultBalance ∧
        rebase.simulatedSharesToBurn = min (burnLimit R T S before) sharesRequestedToBurn ∧
        rebase.sharesToBurn
          = min (burnLimit R T S after) (newSharesToBurn + sharesRequestedToBurn) := by
  unfold smoothenTokenRebase
  refine (TokenRebaseLimiterData.initLimiterState_ensures hR hT).bind fun l ⟨hl, hcurrent⟩ => ?_
  refine (hl.applyCLBalanceChange hR hcurrent hrise).bind fun l₁ ⟨hl₁, hcl⟩ => ?_
  refine (hl₁.increaseAce hR).bind fun ⟨l₂, withdrawals⟩ ⟨hl₂, hwithdrawals, hw⟩ => ?_
  refine (hl₂.increaseAce hR).bind fun ⟨l₃, elRewards⟩ ⟨hl₃, helRewards, he⟩ => ?_
  refine (hl₃.getSharesToBurnLimit hR hT).bind fun simulatedLimit hsimulated => ?_
  refine (hl₃.decreaseAce hR).bind fun l₄ ⟨hl₄, hlocked⟩ => ?_
  refine (hl₄.getSharesToBurnLimit hR hT).bind fun limit hlimit => ?_
  refine (ensures_checkedAdd limiterFailure_overflow).bind fun requested hrequested => ensures_pure ?_
  subst hsimulated hlimit hrequested
  simp only at hwithdrawals helRewards hw he
  refine ⟨l₃.currentTotalPooledAce, l₄.currentTotalPooledAce, hl₃.current_le, ?_, hlocked, ?_, ?_,
    rfl, rfl⟩
  · simp only
    omega
  · simp only
    omega
  · simp only
    omega

/--
**The rebase limiter.** With a limit `R` that is not the disabled one and an increase on the
consensus layer that fits it, `smoothenTokenRebase` only fails in the expected ways. Otherwise
what it lets in fits the limit, and so does the rate after the burns; the burn without
withdrawals is at most the burn with them.
-/
theorem smoothenTokenRebase_bounded (hR : R ≠ UNLIMITED_REBASE) (hT : 0 < T)
    (hrise : (postCLBalance : ℤ) - preCLBalance ≤ (R * T / 10 ^ 9 : ℕ)) :
    (∀ r, smoothenTokenRebase R T S preCLBalance postCLBalance withdrawalVaultBalance
        elRewardsVaultBalance sharesRequestedToBurn aceToLock newSharesToBurn = .error r →
      LimiterFailure r) ∧
    (∀ rebase, smoothenTokenRebase R T S preCLBalance postCLBalance withdrawalVaultBalance
        elRewardsVaultBalance sharesRequestedToBurn aceToLock newSharesToBurn = .ok rebase →
      rebase.withdrawals ≤ withdrawalVaultBalance ∧
      rebase.elRewards ≤ elRewardsVaultBalance ∧
      (T : ℤ) + (postCLBalance - preCLBalance) + rebase.withdrawals + rebase.elRewards
        ≤ T + (R * T / 10 ^ 9 : ℕ) ∧
      (∃ T₂ : ℕ, (T₂ : ℤ) = T + (postCLBalance - preCLBalance) + rebase.withdrawals
          + rebase.elRewards - aceToLock ∧
        S * (T₂ * 10 ^ 9 / T) ≤ (S - rebase.sharesToBurn) * (10 ^ 9 + R)) ∧
      rebase.sharesToBurn ≤ S ∧
      rebase.simulatedSharesToBurn ≤ rebase.sharesToBurn ∧
      rebase.sharesToBurn ≤ newSharesToBurn + sharesRequestedToBurn) := by
  have hrise : postCLBalance ≤ preCLBalance + R * T / LIMITER_PRECISION_BASE := by
    unfold LIMITER_PRECISION_BASE
    omega
  have hensures := smoothenTokenRebase_ensures withdrawalVaultBalance elRewardsVaultBalance
    sharesRequestedToBurn aceToLock newSharesToBurn (S := S) hR hT.ne' hrise
  refine ⟨fun r hr => hensures.of_error hr, fun rebase hok => ?_⟩
  obtain ⟨before, after, hbefore, hsum, hlocked, hw, he, hsimulated, hburn⟩ := hensures.of_ok hok
  have hafter : after ≤ before := by omega
  have hle : rebase.sharesToBurn ≤ burnLimit R T S after := hburn.le.trans (Nat.min_le_left _ _)
  have hrate := rate_le_of_burn (hafter.trans hbefore) hle
  have hmore := burnLimit_antitone (R := R) (T := T) (S := S) hafter
  unfold LIMITER_PRECISION_BASE at hbefore hrate
  refine ⟨hw, he, ?_, ⟨after, ?_, hrate⟩, hle.trans burnLimit_le, ?_, ?_⟩
  · omega
  · omega
  · omega
  · omega

end smoothenTokenRebase

/-- A report that lets most rewards in, locks ace and burns shares, at a limit of 5%. -/
theorem smoothenTokenRebase_bounded_small : ∃ rebase,
    smoothenTokenRebase 50000000 1000 900 320 310 20 35 30 100 60 = .ok rebase ∧
    rebase.simulatedSharesToBurn = 4 ∧ rebase.sharesToBurn = 90 ∧
    rebase.simulatedSharesToBurn ≤ rebase.sharesToBurn ∧ rebase.sharesToBurn ≤ 60 + 30 := by
  have hok := eq_ok_result (smoothenTokenRebase 50000000 1000 900 320 310 20 35 30 100 60)
    (by decide +kernel)
  obtain ⟨-, hbounded⟩ := @smoothenTokenRebase_bounded 50000000 1000 900 320 310 20 35 30 100 60
    (by decide) (by decide) (by decide)
  obtain ⟨-, -, -, -, -, hmore, hrequested⟩ := hbounded _ hok
  exact ⟨_, hok, by decide +kernel, by decide +kernel, hmore, hrequested⟩

end Catalist
