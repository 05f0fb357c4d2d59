import Catalist.Lib.Outcome
import Catalist.Lib.Transition
import Catalist.Pool.BurnRequests

/-!
# The burner holds what it is to burn

Shares come to the burner together with a request to burn them, and what it recovers is at most what
was not requested; so it always holds the requested shares, whatever happens to the rate. A commit
is then followed by a burn of shares that are there, and the two counters of each kind of request
account for all requests ever made.
-/

namespace Catalist

open Solidity Ledger Transition

namespace Burner

variable {b : Burner} {isCover : Bool} {n : Nat}

/-- The shares of `n` that are burnt for requests of one kind; those that cover losses come first. -/
def burnPart (b : Burner) (isCover : Bool) (n : Nat) : Nat :=
  if isCover = true then b.coverPart n else n - b.coverPart n

theorem coverPart_le (b : Burner) (n : Nat) :
    b.coverPart n ≤ n ∧ b.coverPart n ≤ b.coverSharesBurnRequested :=
  ⟨Nat.min_le_left _ _, Nat.min_le_right _ _⟩

/-- What is left of `n` is requested without cover, if `n` shares are requested at all. -/
theorem sub_coverPart_le (h : n ≤ b.allSharesRequested) :
    n - b.coverPart n ≤ b.nonCoverSharesBurnRequested := by
  unfold allSharesRequested at h
  unfold coverPart
  omega

theorem allSharesRequested_requested :
    (b.requested isCover n).allSharesRequested = b.allSharesRequested + n := by
  unfold requested allSharesRequested
  split
  · exact Nat.add_right_comm _ _ _
  · exact (Nat.add_assoc _ _ _).symm

theorem allSharesRequested_committed (h : n ≤ b.allSharesRequested) :
    (b.committed n).allSharesRequested = b.allSharesRequested - n := by
  have hrest := sub_coverPart_le h
  obtain ⟨hle, hcover⟩ := b.coverPart_le n
  unfold allSharesRequested committed
  simp only
  omega

/-- A request is of one kind. -/
theorem lifetime_requested (kind : Bool) :
    (b.requested isCover n).totalSharesBurnt kind
        + (b.requested isCover n).sharesBurnRequested kind
      = b.totalSharesBurnt kind + b.sharesBurnRequested kind + if kind = isCover then n else 0 := by
  cases kind <;> cases isCover <;>
    simp [requested, totalSharesBurnt, sharesBurnRequested, Nat.add_assoc]

/-- What is committed goes from one counter to the other. -/
theorem lifetime_committed (h : n ≤ b.allSharesRequested) (kind : Bool) :
    (b.committed n).totalSharesBurnt kind + (b.committed n).sharesBurnRequested kind
      = b.totalSharesBurnt kind + b.sharesBurnRequested kind := by
  have hrest := sub_coverPart_le h
  obtain ⟨hle, hcover⟩ := b.coverPart_le n
  unfold committed totalSharesBurnt sharesBurnRequested
  split
  · simp only
    omega
  · simp only
    omega

theorem committed_zero : b.committed 0 = b := by
  unfold committed coverPart
  simp

theorem totalSharesBurnt_committed :
    (b.committed n).totalCoverSharesBurnt + (b.committed n).totalNonCoverSharesBurnt
      = b.totalCoverSharesBurnt + b.totalNonCoverSharesBurnt + n := by
  obtain ⟨hle, -⟩ := b.coverPart_le n
  unfold committed
  simp only
  omega

end Burner

/-- What a report has computed when it is about to burn shares (step 6). -/
structure ReportBeforeBurn where
  pool : Pool
  preTotalPooledAce : Nat
  preTotalShares : Nat
  preCLValidators : Nat
  preCLBalance : Nat
  aceToLock : Nat
  sharesToBurnFromWithdrawalQueue : Nat
  rebase : SmoothedRebase

namespace Pool

variable {s s' : Pool} {n now : Nat}

/-! ## Commits -/

/-- The value of `n` shares fits into a word. -/
def Priced (s : Pool) (n : Nat) : Prop := ∃ P, s.getTotalPooledAce = .ok P ∧ n * P < 2 ^ 256

/-- The numbers that a commit of `n` shares computes fit into words. -/
def CommitFits (s : Pool) (n : Nat) : Prop :=
  ∀ isCover, 0 < s.burner.burnPart isCover n →
    s.burner.totalSharesBurnt isCover + s.burner.burnPart isCover n < 2 ^ 256 ∧
    s.Priced (s.burner.burnPart isCover n)

theorem getPooledAceByShares_ok_iff (hT : s.token.totalShares ≠ 0) :
    (∃ tokens, s.token.getPooledAceByShares s.getTotalPooledAce n = .ok tokens) ↔ s.Priced n := by
  constructor
  · rintro ⟨tokens, h⟩
    obtain ⟨P, hP, hfits, -, -⟩ := BACE.getPooledAceByShares_eq_ok.mp h
    exact ⟨P, hP, hfits⟩
  · rintro ⟨P, hP, hfits⟩
    exact ⟨_, BACE.getPooledAceByShares_eq_ok.mpr ⟨P, hP, hfits, hT, rfl⟩⟩

theorem commitCoverShares_eq_ok (hT : s.token.totalShares ≠ 0) (hn : 0 < n) :
    s.commitCoverShares n = .ok (s', now) ↔
      (0 < s.burner.coverPart n →
        s.burner.totalCoverSharesBurnt + s.burner.coverPart n < 2 ^ 256 ∧
        s.Priced (s.burner.coverPart n)) ∧
      now = s.burner.coverPart n ∧
      s' = { s with burner := { s.burner with
        totalCoverSharesBurnt := s.burner.totalCoverSharesBurnt + s.burner.coverPart n
        coverSharesBurnRequested :=
          s.burner.coverSharesBurnRequested - s.burner.coverPart n } } := by
  have hle := (s.burner.coverPart_le n).2
  unfold commitCoverShares
  by_cases hcover : 0 < s.burner.coverSharesBurnRequested
  · have hpos : 0 < s.burner.coverPart n := Nat.lt_min.mpr ⟨hn, hcover⟩
    rw [if_pos hcover]
    simp only [bind_eq_ok, checkedAdd_eq_ok, checkedSub_eq_ok, pure_eq_ok, Prod.mk.injEq]
    constructor
    · rintro ⟨_, ⟨hfits, rfl⟩, tokens, hvalue, _, ⟨-, rfl⟩, rfl, rfl⟩
      exact ⟨fun _ => ⟨hfits, (getPooledAceByShares_ok_iff hT).mp ⟨tokens, hvalue⟩⟩, rfl, rfl⟩
    · rintro ⟨hfits, rfl, rfl⟩
      obtain ⟨hfits, hpriced⟩ := hfits hpos
      obtain ⟨tokens, hvalue⟩ := (getPooledAceByShares_ok_iff hT).mpr hpriced
      exact ⟨_, ⟨hfits, rfl⟩, tokens, hvalue, _, ⟨hle, rfl⟩, rfl, rfl⟩
  · have hzero : s.burner.coverPart n = 0 := by omega
    rw [if_neg hcover, hzero]
    simp only [pure_eq_ok, Prod.mk.injEq, Nat.lt_irrefl, false_implies, true_and, Nat.add_zero,
      Nat.sub_zero]
    constructor
    · rintro ⟨hs, hnow⟩
      exact ⟨hnow.symm, hs.symm⟩
    · rintro ⟨hnow, hs⟩
      exact ⟨hs.symm, hnow.symm⟩

/-- The rest of `n` is taken from the other requests, which have enough. -/
theorem commitNonCoverShares_eq_ok (hT : s.token.totalShares ≠ 0) {m : Nat} (hm : m ≤ n)
    (hrest : n - m ≤ s.burner.nonCoverSharesBurnRequested) (hfits : n < 2 ^ 256) :
    s.commitNonCoverShares n m = .ok (s', now) ↔
      (0 < n - m → s.burner.totalNonCoverSharesBurnt + (n - m) < 2 ^ 256 ∧ s.Priced (n - m)) ∧
      now = n ∧
      s' = { s with burner := { s.burner with
        totalNonCoverSharesBurnt := s.burner.totalNonCoverSharesBurnt + (n - m)
        nonCoverSharesBurnRequested :=
          s.burner.nonCoverSharesBurnRequested - (n - m) } } := by
  unfold commitNonCoverShares
  by_cases hmore : m < n
  · have hcond : 0 < s.burner.nonCoverSharesBurnRequested ∧ m < n := ⟨by omega, hmore⟩
    have hsum : m + (n - m) = n := by omega
    rw [if_pos hcond]
    simp only [bind_eq_ok, checkedAdd_eq_ok, checkedSub_eq_ok, pure_eq_ok, Prod.mk.injEq,
      Nat.min_eq_left hrest, hsum]
    constructor
    · rintro ⟨_, ⟨htotal, rfl⟩, tokens, hvalue, _, ⟨-, rfl⟩, _, ⟨-, rfl⟩, rfl, rfl⟩
      exact ⟨fun _ => ⟨htotal, (getPooledAceByShares_ok_iff hT).mp ⟨tokens, hvalue⟩⟩, rfl, rfl⟩
    · rintro ⟨hpart, rfl, rfl⟩
      obtain ⟨htotal, hpriced⟩ := hpart (by omega)
      obtain ⟨tokens, hvalue⟩ := (getPooledAceByShares_ok_iff hT).mpr hpriced
      exact ⟨_, ⟨htotal, rfl⟩, tokens, hvalue, _, ⟨hrest, rfl⟩, _, ⟨hfits, rfl⟩, rfl, rfl⟩
  · obtain rfl : m = n := by omega
    rw [if_neg (fun hcond => hmore hcond.2)]
    simp only [pure_eq_ok, Prod.mk.injEq, Nat.sub_self, Nat.lt_irrefl, false_implies, true_and,
      Nat.add_zero, Nat.sub_zero]
    constructor
    · rintro ⟨hs, hnow⟩
      exact ⟨hnow.symm, hs.symm⟩
    · rintro ⟨hnow, hs⟩
      exact ⟨hs.symm, hnow.symm⟩

/--
**A commit succeeds exactly if that many shares are requested** and the numbers fit, and it takes
the shares that cover losses first.
-/
theorem commitSharesToBurn_eq_ok (hall : s.burner.allSharesRequested ≤ s.token.totalShares)
    (hfits : s.token.totalShares < 2 ^ 256) :
    s.commitSharesToBurn n = .ok s' ↔
      n ≤ s.burner.allSharesRequested ∧ s.CommitFits n ∧
      s' = { s with burner := s.burner.committed n } := by
  have hsum : s.burner.allSharesRequested
      = s.burner.coverSharesBurnRequested + s.burner.nonCoverSharesBurnRequested := rfl
  unfold commitSharesToBurn
  by_cases hzero : n = 0
  · -- the source returns before it computes the parts, and both parts would be zero
    subst hzero
    rw [if_pos rfl, Burner.committed_zero]
    have hnone : s.CommitFits 0 := by
      intro isCover hpos
      unfold Burner.burnPart Burner.coverPart at hpos
      split at hpos <;> omega
    simp only [pure_eq_ok, Nat.zero_le, hnone, true_and]
    exact eq_comm
  · rw [if_neg hzero]
    simp only [bind_eq_ok, checkedAdd_eq_ok, require_eq_ok, ensure_eq_ok, pure_eq_ok]
    constructor
    · rintro ⟨_, ⟨-, rfl⟩, _, hn, ⟨s₁, now₁⟩, hcover, ⟨s₂, now₂⟩, hnonCover, _, -, rfl⟩
      have hT : s.token.totalShares ≠ 0 := by omega
      obtain ⟨hcoverFits, rfl, rfl⟩ := (commitCoverShares_eq_ok hT (by omega)).mp hcover
      obtain ⟨hle, -⟩ := s.burner.coverPart_le n
      obtain ⟨hnonCoverFits, rfl, rfl⟩ :=
        (commitNonCoverShares_eq_ok (by exact hT) hle (by exact Burner.sub_coverPart_le hn)
          (by omega)).mp hnonCover
      refine ⟨hn, fun isCover => ?_, rfl⟩
      cases isCover with
      | true => exact hcoverFits
      | false => exact hnonCoverFits
    · rintro ⟨hn, hcommit, rfl⟩
      have hT : s.token.totalShares ≠ 0 := by omega
      obtain ⟨hle, -⟩ := s.burner.coverPart_le n
      refine ⟨_, ⟨by omega, rfl⟩, (), hn, (_, _),
        (commitCoverShares_eq_ok hT (by omega)).mpr ⟨hcommit true, rfl, rfl⟩, (_, _),
        (commitNonCoverShares_eq_ok (by exact hT) hle (by exact Burner.sub_coverPart_le hn)
          (by omega)).mpr ⟨hcommit false, rfl, rfl⟩, (), rfl, rfl⟩

/-! ## Burning -/

/-- A revert for another reason than a lack of shares. -/
def Sufficient (r : Revert PoolError) : Prop :=
  r ≠ .error .balanceExceeded ∧ r ≠ .panic .underflow

theorem sufficient_overflow : Sufficient (.panic .overflow) := ⟨nofun, nofun⟩

theorem sufficient_assertion : Sufficient (.panic .assertion) := ⟨nofun, nofun⟩

theorem sufficient_divisionByZero : Sufficient (.panic .divisionByZero) := ⟨nofun, nofun⟩

theorem sufficient_burnFromZeroAddr : Sufficient (.error .burnFromZeroAddr) := ⟨nofun, nofun⟩

theorem ensures_pooled : Ensures Sufficient s.getTotalPooledAce fun _ => True := by
  have htransient : Ensures Sufficient s.getTransientBalance fun _ => True := by
    refine (ensures_assertion sufficient_assertion).bind fun _ _ => ?_
    exact (ensures_checkedMul sufficient_overflow).mono fun _ _ => trivial
  refine (ensures_checkedAdd sufficient_overflow).bind fun _ _ => ?_
  refine htransient.bind fun _ _ => ?_
  exact (ensures_checkedAdd sufficient_overflow).mono fun _ _ => trivial

theorem ensures_priced (t : BACE) :
    Ensures Sufficient (t.getPooledAceByShares s.getTotalPooledAce n) fun _ => True := by
  refine ensures_pooled.bind fun _ _ => ?_
  refine (ensures_checkedMul sufficient_overflow).bind fun _ _ => ?_
  exact (ensures_division sufficient_divisionByZero).mono fun _ _ => trivial

/-- A transfer of shares that are there does not fail for lack of shares. -/
theorem ensures_transferShares {t : BACE} {sender recipient : Address} (hle : n ≤ t.shares sender) :
    Ensures Sufficient (t.transferSharesInternal sender recipient n) fun _ => True := by
  refine (ensures_require ⟨nofun, nofun⟩).bind fun _ _ => ?_
  refine (ensures_require ⟨nofun, nofun⟩).bind fun _ _ => ?_
  refine (ensures_require ⟨nofun, nofun⟩).bind fun _ _ => ?_
  refine (ensures_require ⟨nofun, nofun⟩).bind fun _ _ => ?_
  refine (ensures_require_of hle).bind fun _ _ => ?_
  refine (ensures_checkedSub hle).bind fun _ _ => ?_
  exact (ensures_checkedAdd sufficient_overflow).bind fun _ _ => ensures_pure trivial

/-- A burn of shares that are there does not fail for lack of shares. -/
theorem ensures_burnShares {a : Address} (hle : n ≤ s.token.shares a)
    (htotal : n ≤ s.token.totalShares) :
    Ensures Sufficient (s.token.burnShares s.getTotalPooledAce a n) fun _ => True := by
  refine (ensures_require sufficient_burnFromZeroAddr).bind fun _ _ => ?_
  refine (ensures_require_of hle).bind fun _ _ => ?_
  refine (ensures_priced _).bind fun _ _ => ?_
  refine (ensures_checkedSub htotal).bind fun _ _ => ?_
  refine (ensures_checkedSub hle).bind fun _ _ => ?_
  exact (ensures_priced _).bind fun _ _ => ensures_pure trivial

/-! ## Reports -/

section reports

variable (s : Pool)

/-- `_handleOracleReport` up to its step 6. -/
def reportBeforeBurn (env : Env) (data : OracleReportedData) : Call PoolError ReportBeforeBurn := do
  require (env.sender = s.locator.accountingOracle) .appAuthFailed
  require (data.reportTimestamp ≤ env.timestamp) .invalidReportTimestamp
  let preTotalPooledAce ← s.getTotalPooledAce
  let preTotalShares := s.token.totalShares
  let preCLValidators := s.clValidators
  let (s, preCLBalance) ← s.processClStateUpdate preCLValidators data.clValidators data.postCLBalance
  s.checkAccountingOracleReport data preCLBalance preCLValidators
  let (s, aceToLock, sharesToBurnFromWithdrawalQueue) ← s.prepareWithdrawals env data
  let rebase ← smoothenTokenRebase s.limits.maxPositiveTokenRebase preTotalPooledAce preTotalShares
    preCLBalance data.postCLBalance data.withdrawalVaultBalance data.elRewardsVaultBalance
    data.sharesRequestedToBurn aceToLock sharesToBurnFromWithdrawalQueue
  let s ← s.collectRewardsAndProcessWithdrawals env rebase.withdrawals rebase.elRewards
    data.withdrawalFinalizationBatches data.simulatedShareRate aceToLock
  return { pool := s
           preTotalPooledAce := preTotalPooledAce
           preTotalShares := preTotalShares
           preCLValidators := preCLValidators
           preCLBalance := preCLBalance
           aceToLock := aceToLock
           sharesToBurnFromWithdrawalQueue := sharesToBurnFromWithdrawalQueue
           rebase := rebase }

/-- `_handleOracleReport` from its step 7 on. -/
def reportAfterBurn (data : OracleReportedData) (distribution : StakingRewardsDistribution)
    (r : ReportBeforeBurn) : Call PoolError (Pool × OracleReportContext × PostRebaseAmounts) := do
  let (s, sharesMintedAsFees) ← s.processRewards distribution r.preCLBalance r.preTotalPooledAce
    r.preTotalShares data.postCLBalance r.rebase.withdrawals r.rebase.elRewards
  let postTotalShares := s.token.totalShares
  let postTotalPooledAce ← s.getTotalPooledAce
  s.checkSimulatedShareRate data postTotalPooledAce postTotalShares r.aceToLock
    r.rebase.sharesToBurn r.rebase.simulatedSharesToBurn
  return (s,
    { preCLValidators := r.preCLValidators
      preCLBalance := r.preCLBalance
      preTotalPooledAce := r.preTotalPooledAce
      preTotalShares := r.preTotalShares
      aceToLockOnWithdrawalQueue := r.aceToLock
      sharesToBurnFromWithdrawalQueue := r.sharesToBurnFromWithdrawalQueue
      simulatedSharesToBurn := r.rebase.simulatedSharesToBurn
      sharesToBurn := r.rebase.sharesToBurn
      sharesMintedAsFees := sharesMintedAsFees },
    { postTotalPooledAce := postTotalPooledAce
      postTotalShares := postTotalShares
      withdrawals := r.rebase.withdrawals
      elRewards := r.rebase.elRewards })

theorem handleOracleReportInternal_eq (env : Env) (data : OracleReportedData)
    (distribution : StakingRewardsDistribution) :
    s.handleOracleReportInternal env data distribution = (do
      let r ← s.reportBeforeBurn env data
      let s ← r.pool.burnRequestedShares r.rebase.sharesToBurn
      s.reportAfterBurn data distribution r) := by
  simp only [handleOracleReportInternal, reportBeforeBurn, bind_assoc, pure_bind]
  rfl

end reports

variable {env : Env} {data : OracleReportedData}

/-- The sanity checker knows how many shares are requested to burn. -/
theorem sharesRequestedToBurn_le {preCLBalance preCLValidators : Nat} {u : Unit}
    (h : s.checkAccountingOracleReport data preCLBalance preCLValidators = .ok u) :
    data.sharesRequestedToBurn ≤ s.burner.allSharesRequested := by
  simp only [checkAccountingOracleReport, bind_eq_ok, checkedAdd_eq_ok] at h
  obtain ⟨_, ⟨-, rfl⟩, hcheck⟩ := h
  obtain ⟨-, -, hle⟩ := s.limits.checkAccountingOracleReport_ok_cases hcheck
  exact hle

/-- The burning of the shares of the finalized requests is requested. -/
theorem prepareWithdrawals_requested {aceToLock : Nat}
    (h : s.prepareWithdrawals env data = .ok (s', aceToLock, n)) :
    (n = 0 ∧ s' = s) ∨
      s.requestBurnSharesFor false s.token.self s.locator.withdrawalQueue n = .ok s' := by
  unfold prepareWithdrawals at h
  split at h
  · simp only [bind_eq_ok, pure_eq_ok, Prod.mk.injEq] at h
    obtain ⟨⟨aceToLock, sharesToBurn⟩, -, s₁, hrequest, rfl, rfl, rfl⟩ := h
    unfold requestBurnFromQueue at hrequest
    split at hrequest
    · exact .inr hrequest
    · next hzero =>
      cases hrequest
      exact .inl ⟨by omega, rfl⟩
  · cases h
    exact .inl ⟨rfl, rfl⟩

theorem smoothenTokenRebase_sharesToBurn_le {limit T S pre post withdrawalVault elRewardsVault
    requested aceToLock newShares : Nat} {rebase : SmoothedRebase}
    (h : smoothenTokenRebase limit T S pre post withdrawalVault elRewardsVault requested aceToLock
      newShares = .ok rebase) : rebase.sharesToBurn ≤ newShares + requested := by
  simp only [smoothenTokenRebase, bind_eq_ok, checkedAdd_eq_ok, pure_eq_ok] at h
  obtain ⟨_, _, _, _, _, _, _, _, _, _, _, _, _, _, _, ⟨-, rfl⟩, rfl⟩ := h
  exact Nat.min_le_right _ _

/-- A report never asks for more shares than are requested to burn by then. -/
theorem reportBeforeBurn_sharesToBurn_le {b : ReportBeforeBurn}
    (h : s.reportBeforeBurn env data = .ok b) :
    b.rebase.sharesToBurn ≤ b.pool.burner.allSharesRequested := by
  simp only [reportBeforeBurn, bind_eq_ok, require_eq_ok, pure_eq_ok] at h
  obtain ⟨_, _, _, _, P, -, ⟨s₁, preCLBalance⟩, hstate, _, hcheck, ⟨s₂, aceToLock, n⟩, hprepare,
    rebase, hsmoothen, s₃, hcollect, rfl⟩ := h
  obtain ⟨-, -, -, rfl⟩ := processClStateUpdate_ok_cases hstate
  have hrequested := sharesRequestedToBurn_le hcheck
  obtain ⟨-, helVault⟩ := checkAccountingOracleReport_ok_cases hcheck
  have hburn := smoothenTokenRebase_sharesToBurn_le hsmoothen
  obtain ⟨-, he⟩ := smoothenTokenRebase_le hsmoothen
  have hall : n + s.burner.allSharesRequested ≤ s₂.burner.allSharesRequested ∧
      s₂.elRewardsVaultBalance = s.elRewardsVaultBalance := by
    rcases prepareWithdrawals_requested hprepare with ⟨rfl, rfl⟩ | hrequest
    · exact ⟨(Nat.zero_add _).le, rfl⟩
    · obtain ⟨allowances, -, rfl⟩ := requestBurnSharesFor_ok_cases hrequest
      refine ⟨?_, rfl⟩
      rw [Burner.allSharesRequested_requested, Nat.add_comm]
  obtain ⟨-, -, -, total, queue, rfl, -⟩ := collectRewardsAndProcessWithdrawals_ok_cases hcollect
    (hall.2 ▸ he.trans helVault)
  exact hburn.trans ((Nat.add_le_add_left hrequested n).trans hall.1)

/-! ## Runs -/

/-- The pool with the shares of each kind ever requested to burn, and the shares burnt. -/
structure BurnRecord where
  pool : Pool
  requested : Bool → Nat
  burnt : Nat

/-- The record after a request. -/
def BurnRecord.request (r : BurnRecord) (pool : Pool) (isCover : Bool) (n : Nat) : BurnRecord where
  pool := pool
  requested kind := r.requested kind + if kind = isCover then n else 0
  burnt := r.burnt

/--
Everything that is no call of the burner: shares that the burner receives from others, rebases,
shares that are minted or moved elsewhere.
-/
structure Received (s s' : Pool) : Prop where
  locator : s'.locator = s.locator
  sharesBurnRequested :
    ∀ kind, s'.burner.sharesBurnRequested kind = s.burner.sharesBurnRequested kind
  totalSharesBurnt : ∀ kind, s'.burner.totalSharesBurnt kind = s.burner.totalSharesBurnt kind
  le : s.token.shares s.locator.burner ≤ s'.token.shares s.locator.burner
  balanced : s.token.Balanced → s'.token.Balanced
  fits : s.token.totalShares < 2 ^ 256 → s'.token.totalShares < 2 ^ 256

/-- A step of a run in which the burner does not request the burning of its own shares. -/
inductive BurnStep : BurnRecord → BurnRecord → Prop where
  | requestBurnMyBACE {r : BurnRecord} {s' : Pool} {isCover hasRole : Bool} {caller : Address}
      {amount n : Nat} : caller ≠ r.pool.locator.burner →
      r.pool.requestBurnMyBACEFor isCover hasRole caller amount = .ok (s', n) →
      BurnStep r (r.request s' isCover n)
  | requestBurnShares {r : BurnRecord} {s' : Pool} {isCover : Bool} {caller fromAddr : Address}
      {n : Nat} : fromAddr ≠ r.pool.locator.burner →
      r.pool.requestBurnSharesFor isCover caller fromAddr n = .ok s' →
      BurnStep r (r.request s' isCover n)
  | recoverExcessBACE {r : BurnRecord} {s' : Pool} {treasury : Address} :
      r.pool.recoverExcessBACE treasury = .ok s' → BurnStep r { r with pool := s' }
  | burn {r : BurnRecord} {s' : Pool} {n : Nat} : r.pool.burnRequestedShares n = .ok s' →
      BurnStep r { r with pool := s', burnt := r.burnt + n }
  | other {r : BurnRecord} {s' : Pool} : Received r.pool s' → BurnStep r { r with pool := s' }

/-- The burner was just constructed. -/
structure BurnStart (r : BurnRecord) : Prop where
  sharesBurnRequested : ∀ kind, r.pool.burner.sharesBurnRequested kind = 0
  requested : ∀ kind, r.requested kind = 0
  burnt : r.burnt = 0
  balanced : r.pool.token.Balanced
  fits : r.pool.token.totalShares < 2 ^ 256

/-- The invariant of a run that starts in `r₀`. -/
structure Covered (r₀ r : BurnRecord) : Prop where
  covered : r.pool.burner.allSharesRequested ≤ r.pool.token.shares r.pool.locator.burner
  balanced : r.pool.token.Balanced
  fits : r.pool.token.totalShares < 2 ^ 256
  lifetime : ∀ kind,
    r.pool.burner.totalSharesBurnt kind + r.pool.burner.sharesBurnRequested kind
      = r.requested kind + r₀.pool.burner.totalSharesBurnt kind
  burnt : r.pool.burner.totalSharesBurnt true + r.pool.burner.totalSharesBurnt false
    = r₀.pool.burner.totalSharesBurnt true + r₀.pool.burner.totalSharesBurnt false + r.burnt

variable {r₀ r r' : BurnRecord} {isCover : Bool}

theorem allSharesRequested_eq (b : Burner) :
    b.allSharesRequested = b.sharesBurnRequested true + b.sharesBurnRequested false := rfl

theorem shares_le_totalShares {t : BACE} (hb : t.Balanced) (a : Address) :
    t.shares a ≤ t.totalShares := by
  rw [← hb]
  exact le_sum (Finset.mem_univ a)

theorem covered_of_start (h : BurnStart r) : Covered r r where
  covered := by
    rw [allSharesRequested_eq, h.sharesBurnRequested, h.sharesBurnRequested]
    exact Nat.zero_le _
  balanced := h.balanced
  fits := h.fits
  lifetime kind := by
    rw [h.sharesBurnRequested, h.requested, Nat.add_zero, Nat.zero_add]
  burnt := by rw [h.burnt, Nat.add_zero]

theorem Covered.request {fromAddr : Address} (hc : Covered r₀ r)
    (hfrom : fromAddr ≠ r.pool.locator.burner)
    (h : r.pool.BurnRequested s' isCover fromAddr n) : Covered r₀ (r.request s' isCover n) := by
  obtain ⟨allowances, hle, rfl⟩ := h
  have hmoved : BACE.Moved r.pool.token
      { r.pool.token with
        shares := move r.pool.token.shares fromAddr r.pool.locator.burner n
        allowances := allowances } fromAddr :=
    ⟨r.pool.locator.burner, n, allowances, hle, rfl⟩
  exact {
    covered := by
      show (r.pool.burner.requested isCover n).allSharesRequested
        ≤ move r.pool.token.shares fromAddr r.pool.locator.burner n r.pool.locator.burner
      rw [Burner.allSharesRequested_requested, move_to hfrom.symm]
      exact Nat.add_le_add_right hc.covered n
    balanced := hmoved.balanced hc.balanced
    fits := hc.fits
    lifetime := fun kind => by
      show (r.pool.burner.requested isCover n).totalSharesBurnt kind
        + (r.pool.burner.requested isCover n).sharesBurnRequested kind = _
      rw [Burner.lifetime_requested, hc.lifetime]
      exact Nat.add_right_comm _ _ _
    burnt := by
      have hkept : ∀ kind, (r.pool.burner.requested isCover n).totalSharesBurnt kind
          = r.pool.burner.totalSharesBurnt kind := by
        intro kind
        cases isCover <;> rfl
      show (r.pool.burner.requested isCover n).totalSharesBurnt true
        + (r.pool.burner.requested isCover n).totalSharesBurnt false = _
      rw [hkept, hkept]
      exact hc.burnt }

/-- What is recovered was not requested to be burnt. -/
theorem Covered.recover {treasury : Address} (hc : Covered r₀ r)
    (h : r.pool.recoverExcessBACE treasury = .ok s') : Covered r₀ { r with pool := s' } := by
  obtain ⟨n, hle, rfl⟩ := recoverExcessBACE_ok_cases h
  have hcovered := hc.covered
  exact { hc with
    covered := by
      show r.pool.burner.allSharesRequested
        ≤ move r.pool.token.shares r.pool.locator.burner treasury n r.pool.locator.burner
      unfold move
      rcases eq_or_ne r.pool.locator.burner treasury with heq | hne
      · simp only [← heq, Function.update_self]
        omega
      · simp only [Function.update_of_ne hne, Function.update_self]
        omega
    balanced := (sum_move (Finset.mem_univ _) (Finset.mem_univ _) (by omega)).trans hc.balanced }

/-- The bounds under which a commit computes what it should. -/
theorem Covered.bounds (hc : Covered r₀ r) :
    r.pool.burner.allSharesRequested ≤ r.pool.token.totalShares :=
  hc.covered.trans (shares_le_totalShares hc.balanced _)

/-- What is burnt was committed before. -/
theorem burnRequestedShares_eq_ok :
    s.burnRequestedShares n = .ok s' ↔
      (n = 0 ∧ s' = s) ∨ (0 < n ∧ ∃ s₁, s.commitSharesToBurn n = .ok s₁ ∧ ∃ token total,
        s₁.token.burnShares s₁.getTotalPooledAce s₁.locator.burner n = .ok (token, total) ∧
        s' = { s₁ with token := token }) := by
  unfold burnRequestedShares
  by_cases hpos : 0 < n
  · rw [if_pos hpos]
    simp only [bind_eq_ok, pure_eq_ok]
    constructor
    · rintro ⟨s₁, hcommit, ⟨token, total⟩, hburn, rfl⟩
      exact .inr ⟨hpos, s₁, hcommit, token, total, hburn, rfl⟩
    · rintro (⟨rfl, -⟩ | ⟨-, s₁, hcommit, token, total, hburn, rfl⟩)
      · exact absurd hpos (Nat.lt_irrefl 0)
      · exact ⟨s₁, hcommit, (token, total), hburn, rfl⟩
  · have hzero : n = 0 := by omega
    rw [if_neg hpos, pure_eq_ok]
    constructor
    · rintro rfl
      exact .inl ⟨hzero, rfl⟩
    · rintro (⟨-, rfl⟩ | ⟨hpos', -⟩)
      · rfl
      · exact absurd hpos' hpos

theorem Covered.burn (hc : Covered r₀ r) (h : r.pool.burnRequestedShares n = .ok s') :
    Covered r₀ { r with pool := s', burnt := r.burnt + n } := by
  rcases burnRequestedShares_eq_ok.mp h with
    ⟨rfl, rfl⟩ | ⟨-, s₁, hcommit, token, total, hburn, rfl⟩
  · exact { hc with }
  · obtain ⟨hn, -, rfl⟩ := (commitSharesToBurn_eq_ok hc.bounds hc.fits).mp hcommit
    have hbalanced := BACE.Balanced.burnShares hc.balanced hburn
    obtain ⟨hle, -, -, rfl⟩ := BACE.burnShares_ok_cases hburn
    have hcovered := hc.covered
    have hfits := hc.fits
    exact {
      covered := by
        show (r.pool.burner.committed n).allSharesRequested ≤ Function.update r.pool.token.shares
          r.pool.locator.burner _ r.pool.locator.burner
        rw [Burner.allSharesRequested_committed hn, Function.update_self]
        exact Nat.sub_le_sub_right hcovered n
      balanced := hbalanced
      fits := Nat.lt_of_le_of_lt (Nat.sub_le _ _) hfits
      lifetime := fun kind => (Burner.lifetime_committed hn kind).trans (hc.lifetime kind)
      burnt := by
        rw [← Nat.add_assoc, ← hc.burnt]
        exact Burner.totalSharesBurnt_committed }

theorem Covered.received (hc : Covered r₀ r) (h : Received r.pool s') :
    Covered r₀ { r with pool := s' } where
  covered := by
    show s'.burner.allSharesRequested ≤ s'.token.shares s'.locator.burner
    rw [allSharesRequested_eq, h.sharesBurnRequested, h.sharesBurnRequested, h.locator]
    exact hc.covered.trans h.le
  balanced := h.balanced hc.balanced
  fits := h.fits hc.fits
  lifetime kind := by
    show s'.burner.totalSharesBurnt kind + s'.burner.sharesBurnRequested kind = _
    rw [h.totalSharesBurnt, h.sharesBurnRequested]
    exact hc.lifetime kind
  burnt := by
    show s'.burner.totalSharesBurnt true + s'.burner.totalSharesBurnt false = _
    rw [h.totalSharesBurnt, h.totalSharesBurnt]
    exact hc.burnt

/-- One step, one case for each of its sorts. -/
theorem Covered.step (hc : Covered r₀ r) (h : BurnStep r r') : Covered r₀ r' := by
  cases h with
  | requestBurnMyBACE hcaller hrun =>
    exact hc.request hcaller (requestBurnMyBACEFor_ok_cases hrun)
  | requestBurnShares hfrom hrun => exact hc.request hfrom (requestBurnSharesFor_ok_cases hrun)
  | recoverExcessBACE hrun => exact hc.recover hrun
  | burn hrun => exact hc.burn hrun
  | other hreceived => exact hc.received hreceived

theorem covered_of_reachable (h₀ : BurnStart r₀) (h : Reachable (· = r₀) BurnStep r) :
    Covered r₀ r := by
  refine h.invariant ?_ fun _ _ hc hstep => hc.step hstep
  rintro _ rfl
  exact covered_of_start h₀

end Pool

end Catalist
