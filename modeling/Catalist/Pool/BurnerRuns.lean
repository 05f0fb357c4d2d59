import Catalist.Pool.Accounting
import Catalist.Pool.BurnerCoverage
import Catalist.Pool.Dilution

/-!
# The burner in runs of the pool

Every call of the pool that does not move shares of the burner itself is a sequence of the steps
that the coverage of the burner is about (`burnSteps_of_run`): a report changes the rate, requests
the burning of the queue's shares, burns, and mints its fee.

A commit is only refused if too many shares are to be burnt, or if a number does not fit into its
word: the totals of burnt shares are never reset, and they start with what the burner was
constructed with.
-/

namespace Catalist

open Solidity Ledger Transition

namespace Pool

variable {s s' : Pool} {r r₀ r' : BurnRecord} {env : Env} {data : OracleReportedData}
  {distribution : StakingRewardsDistribution} {n : Nat}

/-! ## Calls that are other steps -/

/-- Calls that leave the token and the burner alone. -/
theorem received_of_same (hlocator : s'.locator = s.locator) (hburner : s'.burner = s.burner)
    (htoken : s'.token = s.token) : Received s s' where
  locator := hlocator
  sharesBurnRequested kind := by rw [hburner]
  totalSharesBurnt kind := by rw [hburner]
  le := by rw [htoken]
  balanced hb := by
    rw [htoken]
    exact hb
  fits hf := by
    rw [htoken]
    exact hf

/-- Calls that move shares of another account and leave the burner alone. -/
theorem received_of_shifted {source : Address} (h : Shifted s s' source)
    (hne : source ≠ s.locator.burner) (hburner : s'.burner = s.burner) : Received s s' where
  locator := h.locator
  sharesBurnRequested kind := by rw [hburner]
  totalSharesBurnt kind := by rw [hburner]
  le := h.le _ hne.symm
  balanced := h.balanced
  fits hf := by
    rw [h.totalShares]
    exact hf

theorem burner_requestWithdrawals {amounts requestIds : List Nat} {owner : Address}
    (h : s.requestWithdrawals env amounts owner = .ok (s', requestIds)) :
    s'.burner = s.burner := by
  obtain ⟨_, h⟩ := requestWithdrawals_ok_cases h
  refine requestWithdrawalsLoop_rel (R := fun s s' => s'.burner = s.burner) (fun _ => rfl)
    (fun _ _ _ h₁ h₂ => h₂.trans h₁) ?_ h
  rintro s₁ s₂ ⟨_, _, _, _, _, _, _, -, -, rfl⟩
  rfl

theorem burner_requestWithdrawalsWbACE {amounts requestIds : List Nat} {owner : Address}
    (h : s.requestWithdrawalsWbACE env amounts owner = .ok (s', requestIds)) :
    s'.burner = s.burner := by
  obtain ⟨_, h⟩ := requestWithdrawalsWbACE_ok_cases h
  refine requestWithdrawalsWbACELoop_rel (R := fun s s' => s'.burner = s.burner) (fun _ => rfl)
    (fun _ _ _ h₁ h₂ => h₂.trans h₁) ?_ h
  rintro s₁ s₂ ⟨_, _, _, _, _, _, _, -, -, rfl⟩
  rfl

theorem mintShares_fits {t t' : BACE} {recipient : Address} {total : Nat}
    (h : t.mintShares recipient n = .ok (t', total)) : t'.totalShares < 2 ^ 256 := by
  simp only [BACE.mintShares, bind_eq_ok, checkedAdd_eq_ok, pure_eq_ok, Prod.mk.injEq] at h
  obtain ⟨_, _, _, ⟨hfits, rfl⟩, _, _, rfl, rfl⟩ := h
  exact hfits

theorem received_submit {blockNumber : Nat} (h : s.submit env blockNumber = .ok (s', n)) :
    Received s s' := by
  obtain ⟨_, _, _, token, total, _, _, hmint, _, rfl⟩ := submit_ok_cases h
  have hpaid : BACE.Paid s.token token env.sender ∅ n := BACE.paid_of_mintShares hmint
  have hfits := mintShares_fits hmint
  have hle : s.token.shares s.locator.burner ≤ token.shares s.locator.burner := by
    obtain ⟨-, -, rfl⟩ := BACE.mintShares_ok_cases hmint
    by_cases hsender : s.locator.burner = env.sender
    · simp only [hsender, Function.update_self]
      exact Nat.le_add_right _ _
    · simp only [Function.update_of_ne hsender]
      exact Nat.le_refl _
  exact {
    locator := rfl
    sharesBurnRequested := fun _ => rfl
    totalSharesBurnt := fun _ => rfl
    le := hle
    balanced := hpaid.balanced
    fits := fun _ => hfits }

/-- Fees are minted to the pool and paid out; the burner may be paid. -/
theorem received_of_paid {token : BACE} {payees : Set Address}
    (h : BACE.Paid s.token token s.token.self payees n) (hself : s.locator.burner ≠ s.token.self)
    (hfits : s.token.totalShares < 2 ^ 256 → token.totalShares < 2 ^ 256) :
    Received s { s with token := token } where
  locator := rfl
  sharesBurnRequested _ := rfl
  totalSharesBurnt _ := rfl
  le := h.le _ hself
  balanced := h.balanced
  fits := hfits

theorem processRewards_fits {preCL T S postCL w e : Nat}
    (h : s.processRewards distribution preCL T S postCL w e = .ok (s', n))
    (hfits : s.token.totalShares < 2 ^ 256) : s'.token.totalShares < 2 ^ 256 := by
  unfold processRewards at h
  simp only [bind_eq_ok] at h
  obtain ⟨_, _, h⟩ := h
  split at h
  · simp only [distributeFee, bind_eq_ok] at h
    obtain ⟨_, _, _, _, _, _, h⟩ := h
    split at h
    · simp only [transferTreasuryRewards, bind_eq_ok, pure_eq_ok, Prod.mk.injEq] at h
      obtain ⟨_, _, ⟨token₁, total⟩, hmint, ⟨s₂, given⟩, hmodules, treasuryReward, _, _, ⟨token₃,
        htreasury, _, _, rfl⟩, rfl, rfl⟩ := h
      obtain ⟨token₂, hpaid, rfl⟩ := transferModuleRewards_ok_cases hmodules
      -- only the mint changes the total
      have hlast := (BACE.paid_of_transferSharesInternal htreasury).totalShares
      have hminted := mintShares_fits hmint
      rw [← hpaid.totalShares.trans (Nat.add_zero _)] at hminted
      exact (hlast.trans (Nat.add_zero _)).trans_lt hminted
    · cases h
      exact hfits
  · cases h
    exact hfits

/-! ## Every call -/

/-- Steps one after the other. -/
abbrev BurnSteps (r r' : BurnRecord) : Prop := Reachable (· = r) BurnStep r'

theorem BurnSteps.other (h : BurnSteps r r') (hreceived : Received r'.pool s') :
    BurnSteps r { r' with pool := s' } :=
  Reachable.step h (.other hreceived)

/-- The steps of a report. -/
theorem burnSteps_of_report {context : OracleReportContext} {amounts : PostRebaseAmounts}
    (hself : r.pool.locator.burner ≠ r.pool.token.self)
    (h : r.pool.handleOracleReportInternal env data distribution = .ok (s', context, amounts)) :
    ∃ r', BurnSteps r r' ∧ r'.pool = s' ∧
      (∀ kind, r'.requested kind = r.requested kind
        + if kind = false then context.sharesToBurnFromWithdrawalQueue else 0) ∧
      r'.burnt = r.burnt + context.sharesToBurn := by
  rw [handleOracleReportInternal_eq] at h
  simp only [reportBeforeBurn, reportAfterBurn, bind_eq_ok, require_eq_ok, pure_eq_ok,
    Prod.mk.injEq] at h
  obtain ⟨b, ⟨_, _, _, _, P, -, ⟨s₁, preCLBalance⟩, hstate, _, hcheck, ⟨s₂, aceToLock, n⟩,
    hprepare, rebase, hsmoothen, s₃, hcollect, rfl⟩, s₄, hburn, ⟨s₅, minted⟩, hrewards, P', -, _,
    -, rfl, rfl, rfl⟩ := h
  obtain ⟨-, -, -, hs₁⟩ := processClStateUpdate_ok_cases hstate
  have hlocator₁ : s₁.locator = r.pool.locator := by rw [hs₁]
  have htoken₁ : s₁.token = r.pool.token := by rw [hs₁]
  -- the state of the consensus layer
  have hfirst : BurnSteps r { r with pool := s₁ } :=
    BurnSteps.other (.init rfl) (received_of_same hlocator₁ (by rw [hs₁]) htoken₁)
  obtain ⟨-, helVault⟩ := checkAccountingOracleReport_ok_cases hcheck
  obtain ⟨-, he⟩ := smoothenTokenRebase_le hsmoothen
  -- the request of the queue
  obtain ⟨r₂, hsecond, hr₂, hrequested, hburnt, hlocator₂, hself₂, hvault⟩ :
      ∃ r₂, BurnSteps r r₂ ∧ r₂.pool = s₂ ∧
        (∀ kind, r₂.requested kind = r.requested kind + if kind = false then n else 0) ∧
        r₂.burnt = r.burnt ∧ s₂.locator = r.pool.locator ∧ s₂.token.self = r.pool.token.self ∧
        s₂.elRewardsVaultBalance = s₁.elRewardsVaultBalance := by
    rcases prepareWithdrawals_requested hprepare with ⟨rfl, rfl⟩ | hrequest
    · refine ⟨_, hfirst, rfl, fun kind => ?_, rfl, hlocator₁, by rw [htoken₁], rfl⟩
      rw [ite_self, Nat.add_zero]
    · have hne : s₁.locator.withdrawalQueue ≠ s₁.locator.burner :=
        s₁.locator.burner_ne_withdrawalQueue.symm
      refine ⟨_, hfirst.step (.requestBurnShares hne hrequest), rfl, fun _ => rfl, rfl, ?_⟩
      obtain ⟨allowances, -, rfl⟩ := requestBurnSharesFor_ok_cases hrequest
      refine ⟨hlocator₁, ?_, rfl⟩
      show s₁.token.self = _
      rw [htoken₁]
  subst hr₂
  -- the vaults and the queue
  obtain ⟨-, -, -, total, queue, hs₃, -⟩ := collectRewardsAndProcessWithdrawals_ok_cases hcollect
    (hvault ▸ he.trans helVault)
  have hthird : BurnSteps r { r₂ with pool := s₃ } :=
    hsecond.other (received_of_same (by rw [hs₃]) (by rw [hs₃]) (by rw [hs₃]))
  -- the burn
  have hfourth : BurnSteps r
      { r₂ with pool := s₄, burnt := r₂.burnt + rebase.sharesToBurn } := hthird.step (.burn hburn)
  obtain ⟨-, -, burner, hs₄⟩ := burnRequestedShares_ok_cases hburn
  -- the fee
  obtain ⟨token, hpaid, hs₅⟩ := processRewards_ok_cases hrewards
  have hself₄ : s₄.locator.burner ≠ s₄.token.self := by
    rw [hs₄, hs₃]
    show r₂.pool.locator.burner ≠ r₂.pool.token.self
    rw [hlocator₂, hself₂]
    exact hself
  have hfits : s₄.token.totalShares < 2 ^ 256 → token.totalShares < 2 ^ 256 := by
    intro hf
    have hafter := processRewards_fits hrewards hf
    rwa [hs₅] at hafter
  refine ⟨_, hfourth.other (received_of_paid hpaid hself₄ hfits), hs₅.symm, hrequested, ?_⟩
  exact congrArg (· + rebase.sharesToBurn) hburnt

/-- **Every call is a sequence of steps**, unless it moves shares of the burner. -/
theorem burnSteps_of_run {action : Action} (hself : r.pool.locator.burner ≠ r.pool.token.self)
    (hsource : action.source r.pool ≠ some r.pool.locator.burner)
    (h : action.run r.pool = .ok s') : ∃ r', BurnSteps r r' ∧ r'.pool = s' := by
  have hother : Received r.pool s' → ∃ r', BurnSteps r r' ∧ r'.pool = s' :=
    fun hreceived => ⟨_, BurnSteps.other (.init rfl) hreceived, rfl⟩
  cases action with
  | submit env blockNumber =>
    obtain ⟨⟨s₁, n⟩, hrun, rfl⟩ := map_eq_ok.mp h
    exact hother (received_submit hrun)
  | deposit env maxDepositsCount getStakingModuleMaxDepositsCount =>
    obtain ⟨depositsCount, -, -, rfl⟩ := deposit_ok_cases h
    exact hother (received_of_same rfl rfl rfl)
  | unsafeChangeDepositedValidators canPerform newDepositedValidators =>
    obtain rfl := unsafeChangeDepositedValidators_ok_cases h
    exact hother (received_of_same rfl rfl rfl)
  | handleOracleReport env data distribution =>
    obtain ⟨⟨s₁, amounts⟩, hrun, rfl⟩ := map_eq_ok.mp h
    obtain ⟨-, context, hinternal⟩ := handleOracleReport_eq_ok.mp hrun
    obtain ⟨r', hsteps, hpool, -, -⟩ := burnSteps_of_report hself hinternal
    exact ⟨r', hsteps, hpool⟩
  | token op caller =>
    have hshifted := Action.shifted rfl h
    obtain ⟨token, -, rfl⟩ := map_eq_ok.mp h
    exact hother (received_of_shifted hshifted (fun heq => hsource (congrArg some heq)) rfl)
  -- the shares of the request are counted, all other ones are received
  | requestBurnShares caller fromAddr sharesAmount =>
    have hrun : r.pool.requestBurnSharesFor false caller fromAddr sharesAmount = .ok s' := h
    refine ⟨_, Reachable.step (.init rfl) (.requestBurnShares ?_ hrun), rfl⟩
    exact fun heq => hsource (congrArg some heq)
  | requestWithdrawals env amounts owner =>
    have hshifted := Action.shifted rfl h
    obtain ⟨⟨s₁, requestIds⟩, hrun, rfl⟩ := map_eq_ok.mp h
    exact hother (received_of_shifted hshifted (fun heq => hsource (congrArg some heq))
      (burner_requestWithdrawals hrun))
  | requestWithdrawalsWbACE env amounts owner =>
    have hshifted := Action.shifted rfl h
    obtain ⟨⟨s₁, requestIds⟩, hrun, rfl⟩ := map_eq_ok.mp h
    exact hother (received_of_shifted hshifted (fun heq => hsource (congrArg some heq))
      (burner_requestWithdrawalsWbACE hrun))

/-! ## The burner -/

/--
**The burner covers its requests.** In every run it holds the shares that are requested to be burnt.
A commit succeeds exactly if it is for at most that many and its numbers fit, it takes the shares
that cover losses first, its assertion holds, and the burn after it does not lack shares. A report
that passed the checks never asks for more. Of each kind, what was burnt and what is requested make
up all requests and the amount at the start.
-/
theorem burner_covers (h₀ : BurnStart r₀) (h : Reachable (· = r₀) BurnStep r) :
    r.pool.burner.coverSharesBurnRequested + r.pool.burner.nonCoverSharesBurnRequested
      ≤ r.pool.token.sharesOf r.pool.locator.burner ∧
    (∀ n, (∃ s', r.pool.commitSharesToBurn n = .ok s') ↔
      n ≤ r.pool.burner.coverSharesBurnRequested + r.pool.burner.nonCoverSharesBurnRequested ∧
        r.pool.CommitFits n) ∧
    (∀ n s', r.pool.commitSharesToBurn n = .ok s' →
      s' = { r.pool with burner := r.pool.burner.committed n } ∧
      n ≤ s'.token.sharesOf s'.locator.burner ∧
      ∀ e, s'.token.burnShares s'.getTotalPooledAce s'.locator.burner n = .error e →
        Sufficient e) ∧
    (∀ n s₁ now₁ s₂ now₂,
      n ≤ r.pool.burner.coverSharesBurnRequested + r.pool.burner.nonCoverSharesBurnRequested →
      n ≠ 0 → r.pool.commitCoverShares n = .ok (s₁, now₁) →
      s₁.commitNonCoverShares n now₁ = .ok (s₂, now₂) → now₂ = n) ∧
    (∀ env data b, r.pool.reportBeforeBurn env data = .ok b →
      b.rebase.sharesToBurn
        ≤ b.pool.burner.coverSharesBurnRequested + b.pool.burner.nonCoverSharesBurnRequested) ∧
    (∀ kind, r.pool.burner.totalSharesBurnt kind + r.pool.burner.sharesBurnRequested kind
      = r.requested kind + r₀.pool.burner.totalSharesBurnt kind) ∧
    r.pool.burner.totalSharesBurnt true + r.pool.burner.totalSharesBurnt false
      = r₀.pool.burner.totalSharesBurnt true + r₀.pool.burner.totalSharesBurnt false + r.burnt := by
  have hc := covered_of_reachable h₀ h
  have hcovered := hc.covered
  have hbounds := hc.bounds
  have hfits := hc.fits
  refine ⟨hcovered, fun n => ?_, fun n s' hcommit => ?_, ?_, ?_, hc.lifetime, hc.burnt⟩
  · constructor
    · rintro ⟨s', hcommit⟩
      obtain ⟨hn, hcommitFits, -⟩ := (commitSharesToBurn_eq_ok hbounds hfits).mp hcommit
      exact ⟨hn, hcommitFits⟩
    · rintro ⟨hn, hcommitFits⟩
      exact ⟨_, (commitSharesToBurn_eq_ok hbounds hfits).mpr ⟨hn, hcommitFits, rfl⟩⟩
  · obtain ⟨hn, -, rfl⟩ := (commitSharesToBurn_eq_ok hbounds hfits).mp hcommit
    have hshares : n ≤ r.pool.token.shares r.pool.locator.burner := hn.trans hcovered
    refine ⟨rfl, hshares, fun e he => ?_⟩
    exact Ensures.of_error (ensures_burnShares hshares (hn.trans hbounds)) he
  · intro n s₁ now₁ s₂ now₂ hn hne hcover hnonCover
    have hall : n ≤ r.pool.burner.allSharesRequested := hn
    -- the shares to burn are among the burner's, so there are shares at all
    have hT : r.pool.token.totalShares ≠ 0 := by omega
    obtain ⟨-, rfl, rfl⟩ := (commitCoverShares_eq_ok hT (by omega)).mp hcover
    obtain ⟨hle, -⟩ := r.pool.burner.coverPart_le n
    obtain ⟨-, hnow, -⟩ := (commitNonCoverShares_eq_ok (by exact hT) hle
      (by exact Burner.sub_coverPart_le hall) (by omega)).mp hnonCover
    exact hnow
  · intro env data b hreport
    exact reportBeforeBurn_sharesToBurn_le hreport

/-! ## Examples -/

/-- A pool whose holder lets the burner take everything; `total` shares were burnt before. -/
def exampleBurnStart (total : Nat) : BurnRecord where
  pool := { exampleStart with
    token := { exampleStart.token with allowances := fun _ _ => INFINITE_ALLOWANCE }
    burner := { exampleStart.burner with totalCoverSharesBurnt := total } }
  requested _ := 0
  burnt := 0

theorem burnStart_exampleBurnStart (total : Nat) : BurnStart (exampleBurnStart total) where
  sharesBurnRequested kind := by cases kind <;> rfl
  requested _ := rfl
  burnt := rfl
  balanced := by
    have hbalanced : exampleStart.token.Balanced := balanced_initial initial_exampleStart
    exact hbalanced
  fits := by
    show exampleStart.token.totalShares < 2 ^ 256
    decide +kernel

/-- A request of the holder for ten of its tokens, to cover losses. -/
def exampleRequest (total : Nat) : Call PoolError (Pool × Nat) :=
  (exampleBurnStart total).pool.requestBurnMyBACEForCover true INITIAL_TOKEN_HOLDER 10

/-- The record after the request. -/
def exampleBurnRecord (total : Nat) (h : (exampleRequest total).isOk = true) : BurnRecord :=
  (exampleBurnStart total).request (result _ h).1 true (result _ h).2

theorem reachable_exampleBurnRecord (total : Nat) (h : (exampleRequest total).isOk = true) :
    Reachable (· = exampleBurnStart total) BurnStep (exampleBurnRecord total h) := by
  have hne : INITIAL_TOKEN_HOLDER ≠ (exampleBurnStart total).pool.locator.burner := by
    show INITIAL_TOKEN_HOLDER ≠ exampleStart.locator.burner
    decide +kernel
  have hrun := eq_ok_result (exampleRequest total) h
  unfold exampleBurnRecord
  generalize result (exampleRequest total) h = answer at hrun ⊢
  obtain ⟨s', n⟩ := answer
  unfold exampleRequest requestBurnMyBACEForCover at hrun
  exact Reachable.step (.init rfl) (.requestBurnMyBACE hne hrun)

theorem isOk_exampleRequest : (exampleRequest 7).isOk = true := by decide +kernel

theorem isOk_exampleRequest_full : (exampleRequest (2 ^ 256 - 1)).isOk = true := by decide +kernel

/-- Four of the ten shares are committed, and then there are four shares to burn. -/
theorem burner_covers_ten_shares :
    ∃ s', (exampleBurnRecord 7 isOk_exampleRequest).pool.commitSharesToBurn 4 = .ok s' ∧
      s'.burner.coverSharesBurnRequested = 6 ∧ s'.burner.totalCoverSharesBurnt = 11 ∧
      4 ≤ s'.token.sharesOf s'.locator.burner := by
  obtain ⟨-, -, hcommits, -⟩ := burner_covers (burnStart_exampleBurnStart 7)
    (reachable_exampleBurnRecord 7 isOk_exampleRequest)
  have hcommit := eq_ok_result ((exampleBurnRecord 7 isOk_exampleRequest).pool.commitSharesToBurn 4)
    (by decide +kernel)
  obtain ⟨hs', hshares, -⟩ := hcommits 4 _ hcommit
  refine ⟨_, hcommit, ?_, ?_, hshares⟩
  · decide +kernel
  · decide +kernel

/-- With a total that is full from the start, no share can be committed. -/
theorem not_commit_of_full_total :
    ¬ ∀ r₀ r : BurnRecord, BurnStart r₀ → Reachable (· = r₀) BurnStep r → ∀ n,
      (∃ s', r.pool.commitSharesToBurn n = .ok s') ↔
        n ≤ r.pool.burner.coverSharesBurnRequested + r.pool.burner.nonCoverSharesBurnRequested := by
  intro hall
  have hrecord := hall _ _ (burnStart_exampleBurnStart (2 ^ 256 - 1))
    (reachable_exampleBurnRecord (2 ^ 256 - 1) isOk_exampleRequest_full) 1
  have hone : 1 ≤ (exampleBurnRecord (2 ^ 256 - 1)
      isOk_exampleRequest_full).pool.burner.coverSharesBurnRequested + (exampleBurnRecord
      (2 ^ 256 - 1) isOk_exampleRequest_full).pool.burner.nonCoverSharesBurnRequested := by
    decide +kernel
  obtain ⟨s', hcommit⟩ := hrecord.mpr hone
  have hfails : ((exampleBurnRecord (2 ^ 256 - 1)
      isOk_exampleRequest_full).pool.commitSharesToBurn 1).isOk = false := by
    decide +kernel
  rw [hcommit] at hfails
  cases hfails

end Pool

end Catalist
