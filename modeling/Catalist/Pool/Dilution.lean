import Catalist.Lib.SharePool
import Catalist.Pool.Accounting

/-!
# Shares are conserved, and users do not dilute each other

In every run the shares of all accounts add up to the total. The calls of users never lower what a
share is worth, so nobody but the account whose shares a call moves can lose by it.
-/

namespace Catalist

open Solidity Ledger Transition SharePool

namespace Pool

variable {s s' : Pool} {env : Env} {n : Nat}

/-! ## Conservation -/

theorem balanced_initial (h : Initial s) : s.token.Balanced := by
  obtain ⟨s₀, hfresh, h⟩ := h
  obtain ⟨_, token, total, allowances, hmint, rfl⟩ := initializePool_ok_cases hfresh.totalShares h
  have hempty : s₀.token.Balanced := by
    unfold BACE.Balanced
    rw [hfresh.totalShares]
    exact Finset.sum_eq_zero fun a _ => hfresh.shares a
  have hminted : token.Balanced := BACE.Balanced.mintShares hempty hmint
  exact hminted

theorem balanced_run {action : Action} (hb : s.token.Balanced) (h : action.run s = .ok s') :
    s'.token.Balanced := by
  cases hsource : action.source s with
  | some source => exact (action.shifted hsource h).balanced hb
  | none =>
    cases action with
    | submit env blockNumber =>
      obtain ⟨⟨s₁, n⟩, hrun, rfl⟩ := map_eq_ok.mp h
      obtain ⟨_, _, _, token, total, _, _, hmint, _, rfl⟩ := submit_ok_cases hrun
      exact BACE.Balanced.mintShares hb hmint
    | deposit env maxDepositsCount getStakingModuleMaxDepositsCount =>
      obtain ⟨depositsCount, _, _, rfl⟩ := deposit_ok_cases h
      exact hb
    | unsafeChangeDepositedValidators canPerform newDepositedValidators =>
      obtain rfl := unsafeChangeDepositedValidators_ok_cases h
      exact hb
    | handleOracleReport env data distribution =>
      obtain ⟨⟨s₁, amounts⟩, hrun, rfl⟩ := map_eq_ok.mp h
      obtain ⟨_, context, hinternal⟩ := handleOracleReport_eq_ok.mp hrun
      obtain ⟨token, hburnt, hpaid⟩ := (reportEffects hinternal).token
      exact hpaid.balanced (hburnt.balanced hb)
    | token op caller => cases hsource
    | requestBurnShares caller fromAddr sharesAmount => cases hsource
    | requestWithdrawals env amounts owner => cases hsource
    | requestWithdrawalsWbACE env amounts owner => cases hsource

theorem balanced_of_reachable {Guard : Pool → Action → Prop}
    (h : Reachable Initial (Step Guard) s) : s.token.Balanced := by
  refine h.invariant (fun _ hinit => balanced_initial hinit) ?_
  intro s s' hb hstep
  cases hstep with
  | call action _ h => exact balanced_run hb h
  | other h =>
    unfold BACE.Balanced at hb ⊢
    rw [h.shares, h.totalShares]
    exact hb

/-! ## Prices -/

/--
What a call of a user does: the total pooled ace is still defined, no share loses worth, and only
the shares of `source` go down.
-/
structure Undiluted (s s' : Pool) (source : Option Address) : Prop where
  price : ∀ P, s.getTotalPooledAce = .ok P → ∃ P', s'.getTotalPooledAce = .ok P' ∧
    PriceLe P s.token.totalShares P' s'.token.totalShares
  le : ∀ a, source ≠ some a → s.token.shares a ≤ s'.token.shares a
  totalShares : s.token.totalShares ≤ s'.token.totalShares

theorem SameAccounts.getTotalPooledAce (h : SameAccounts s s') :
    s'.getTotalPooledAce = s.getTotalPooledAce := by
  simp only [Pool.getTotalPooledAce, getTransientBalance, h.bufferedAce, h.clBalance,
    h.depositedValidators, h.clValidators]

theorem SameAccounts.price (h : SameAccounts s s') {P : Nat} (hP : s.getTotalPooledAce = .ok P) :
    ∃ P', s'.getTotalPooledAce = .ok P' ∧
      PriceLe P s.token.totalShares P' s'.token.totalShares := by
  rw [h.getTotalPooledAce, h.totalShares]
  exact ⟨P, hP, PriceLe.refl⟩

theorem Shifted.undiluted {source : Address} (h : Shifted s s' source) :
    Undiluted s s' (some source) where
  price _ hP := h.toSameAccounts.price hP
  le a ha := h.le a fun heq => ha (congrArg some heq.symm)
  totalShares := h.totalShares.ge

theorem undiluted_of_submit {blockNumber : Nat} (h : s.submit env blockNumber = .ok (s', n)) :
    Undiluted s s' none := by
  obtain ⟨P, P', _, token, _, hP, rfl, hmint, hP', rfl⟩ := submit_ok_cases h
  obtain ⟨_, _, rfl⟩ := BACE.mintShares_ok_cases hmint
  refine ⟨fun Q hQ => ⟨P', hP', ?_⟩, fun a _ => ?_, Nat.le_add_right _ _⟩
  · obtain rfl : P = Q := Except.ok.inj (hP.symm.trans hQ)
    obtain ⟨-, -, rfl⟩ := getTotalPooledAce_eq_ok.mp hP
    obtain ⟨-, -, rfl⟩ := getTotalPooledAce_eq_ok.mp hP'
    have hpooled : s.bufferedAce + env.value + s.clBalance
        + (s.depositedValidators - s.clValidators) * DEPOSIT_SIZE
        = s.totalPooledAce + env.value := by
      unfold totalPooledAce
      omega
    show PriceLe _ _ (s.bufferedAce + env.value + s.clBalance
      + (s.depositedValidators - s.clValidators) * DEPOSIT_SIZE) _
    rw [hpooled]
    exact priceLe_of_mint
  · rcases eq_or_ne a env.sender with rfl | hne
    · simp
    · simp [Function.update_of_ne hne]

/-- A deposit to the beacon chain moves ace from the buffer to the validators on their way. -/
theorem undiluted_of_deposit {maxDepositsCount : Nat}
    {getStakingModuleMaxDepositsCount : Nat → Nat}
    (h : s.deposit env maxDepositsCount getStakingModuleMaxDepositsCount = .ok s') :
    Undiluted s s' none := by
  obtain ⟨depositsCount, hbuffered, _, rfl⟩ := deposit_ok_cases h
  refine ⟨fun P hP => ⟨P, ?_, PriceLe.refl⟩, fun _ _ => Nat.le_refl _, Nat.le_refl _⟩
  obtain ⟨hle, hbound, rfl⟩ := getTotalPooledAce_eq_ok.mp hP
  have hpooled : s.bufferedAce - depositsCount * DEPOSIT_SIZE + s.clBalance
      + (s.depositedValidators + depositsCount - s.clValidators) * DEPOSIT_SIZE
      = s.totalPooledAce := by
    rw [Nat.sub_add_comm hle, Nat.add_mul]
    unfold totalPooledAce
    omega
  rw [getTotalPooledAce_eq_ok]
  refine ⟨Nat.le_add_right_of_le hle, ?_, hpooled.symm⟩
  show s.bufferedAce - depositsCount * DEPOSIT_SIZE + s.clBalance
    + (s.depositedValidators + depositsCount - s.clValidators) * DEPOSIT_SIZE < _
  rw [hpooled]
  exact hbound

end Pool

/-- The calls that need no role: all but those of the oracle and the administrator. -/
def Action.ByUser : Action → Prop
  | .handleOracleReport _ _ _ => False
  | .unsafeChangeDepositedValidators _ _ => False
  | _ => True

namespace Pool

variable {s s' : Pool} {action : Action}

theorem undiluted_run (huser : action.ByUser) (h : action.run s = .ok s') :
    Undiluted s s' (action.source s) := by
  cases hsource : action.source s with
  | some source => exact (action.shifted hsource h).undiluted
  | none =>
    cases action with
    | submit env blockNumber =>
      obtain ⟨⟨s₁, n⟩, hrun, rfl⟩ := map_eq_ok.mp h
      exact undiluted_of_submit hrun
    | deposit env maxDepositsCount getStakingModuleMaxDepositsCount =>
      exact undiluted_of_deposit h
    | unsafeChangeDepositedValidators canPerform newDepositedValidators => cases huser
    | handleOracleReport env data distribution => cases huser
    | token op caller => cases hsource
    | requestBurnShares caller fromAddr sharesAmount => cases hsource
    | requestWithdrawals env amounts owner => cases hsource
    | requestWithdrawalsWbACE env amounts owner => cases hsource

theorem balanceOf_ok_cases {P b : Nat} {a : Address} (hP : s.getTotalPooledAce = .ok P)
    (h : s.token.balanceOf s.getTotalPooledAce a = .ok b) :
    s.token.totalShares ≠ 0 ∧ b = worth P s.token.totalShares (s.token.shares a) := by
  obtain ⟨Q, hQ, _, hne, rfl⟩ := BACE.getPooledAceByShares_eq_ok.mp h
  obtain rfl : P = Q := Except.ok.inj (hP.symm.trans hQ)
  exact ⟨hne, rfl⟩

/-- Balances follow the shares and their price. -/
theorem balanceOf_le {P P' b b' : Nat} {a : Address} (hP : s.getTotalPooledAce = .ok P)
    (hP' : s'.getTotalPooledAce = .ok P')
    (hprice : PriceLe P s.token.totalShares P' s'.token.totalShares)
    (hle : s.token.shares a ≤ s'.token.shares a)
    (hb : s.token.balanceOf s.getTotalPooledAce a = .ok b)
    (hb' : s'.token.balanceOf s'.getTotalPooledAce a = .ok b') : b ≤ b' := by
  obtain ⟨hpos, rfl⟩ := balanceOf_ok_cases hP hb
  obtain ⟨hpos', rfl⟩ := balanceOf_ok_cases hP' hb'
  exact worth_le_worth (Nat.pos_of_ne_zero hpos) (Nat.pos_of_ne_zero hpos') hle hprice

/-! ## Runs of users -/

/-- The price is at least that of a pool with `P₀` ace and `S₀` shares. -/
structure NotBelow (P₀ S₀ : Nat) (s : Pool) : Prop where
  price : ∃ P, s.getTotalPooledAce = .ok P ∧ PriceLe P₀ S₀ P s.token.totalShares
  totalShares : S₀ ≤ s.token.totalShares

theorem NotBelow.step {P₀ S₀ : Nat} (hpos : 0 < S₀) (h : NotBelow P₀ S₀ s)
    (hstep : Step (fun _ action => action.ByUser) s s') : NotBelow P₀ S₀ s' := by
  obtain ⟨P, hP, hprice⟩ := h.price
  have hpos' : 0 < s.token.totalShares := Nat.lt_of_lt_of_le hpos h.totalShares
  cases hstep with
  | call action huser hrun =>
    have hundiluted := undiluted_run huser hrun
    obtain ⟨P', hP', hprice'⟩ := hundiluted.price P hP
    exact ⟨⟨P', hP', hprice.trans hpos' hprice'⟩, h.totalShares.trans hundiluted.totalShares⟩
  | other huntouched =>
    obtain ⟨P', hP', hprice'⟩ := huntouched.toSameAccounts.price hP
    exact ⟨⟨P', hP', hprice.trans hpos' hprice'⟩, h.totalShares.trans huntouched.totalShares.ge⟩

/-- Until the oracle reports again, the price of a share never falls. -/
theorem notBelow_of_userRun {s₀ : Pool} {P₀ : Nat} (hP : s₀.getTotalPooledAce = .ok P₀)
    (hpos : 0 < s₀.token.totalShares)
    (h : Reachable (fun s => s = s₀) (Step fun _ action => action.ByUser) s) :
    NotBelow P₀ s₀.token.totalShares s := by
  refine h.invariant ?_ fun _ _ hnot hstep => hnot.step hpos hstep
  rintro _ rfl
  exact ⟨⟨P₀, hP, PriceLe.refl⟩, Nat.le_refl _⟩

/-! ## The main result -/

/--
**Conservation and no dilution**: in every reachable state the shares of all accounts add up to
the total, and no call of a user lowers the price of a share or the balance of an account whose
shares it does not move.
-/
theorem no_dilution (h : Reachable Initial (Step fun _ _ => True) s) :
    ∑ a, s.token.shares a = s.token.totalShares ∧
    ∀ (action : Action) (s' : Pool), action.run s = .ok s' →
      ∑ a, s'.token.shares a = s'.token.totalShares ∧
      (action.ByUser → 0 < s.token.totalShares → ∀ P, s.getTotalPooledAce = .ok P →
        ∃ P', s'.getTotalPooledAce = .ok P' ∧
          P * s'.token.totalShares ≤ P' * s.token.totalShares ∧
          ∀ a b b', action.source s ≠ some a →
            s.token.balanceOf s.getTotalPooledAce a = .ok b →
            s'.token.balanceOf s'.getTotalPooledAce a = .ok b' → b ≤ b') := by
  have hbalanced := balanced_of_reachable h
  refine ⟨hbalanced, ?_⟩
  intro action s' hrun
  refine ⟨balanced_run hbalanced hrun, ?_⟩
  intro huser _ P hP
  have hundiluted := undiluted_run huser hrun
  obtain ⟨P', hP', hprice⟩ := hundiluted.price P hP
  refine ⟨P', hP', hprice, ?_⟩
  intro a b b' ha hb hb'
  exact balanceOf_le hP hP' hprice (hundiluted.le a ha) hb hb'

/-- A submission after the run of the example. -/
def exampleSubmission : Action := .submit ⟨101, 3 * 10 ^ 18, 60, by decide⟩ 7

def exampleAfterReport : Pool :=
  result (exampleStart.runAll
    (exampleActions ++ [.handleOracleReport exampleReportEnv exampleData exampleDistribution]))
    (by decide +kernel)

theorem reachable_exampleAfterReport :
    Reachable Initial (Step fun _ _ => True) exampleAfterReport :=
  reachable_runAll (.init initial_exampleStart) (fun _ _ _ _ => trivial)
    (eq_ok_result _ (by decide +kernel))

/-- With a price that is not a whole number, a submission rounds the shares down. -/
theorem no_dilution_submission : ∃ s' P',
    exampleSubmission.run exampleAfterReport = .ok s' ∧ s'.getTotalPooledAce = .ok P' ∧
    exampleAfterReport.totalPooledAce * s'.token.totalShares
      ≤ P' * exampleAfterReport.token.totalShares := by
  obtain ⟨-, hcalls⟩ := no_dilution reachable_exampleAfterReport
  have hrun := eq_ok_result (exampleSubmission.run exampleAfterReport) (by decide +kernel)
  obtain ⟨-, hprice⟩ := hcalls exampleSubmission _ hrun
  obtain ⟨P', hP', hle, -⟩ := hprice trivial (by decide +kernel) exampleAfterReport.totalPooledAce
    (getTotalPooledAce_eq_ok.mpr ⟨by decide +kernel, by decide +kernel, rfl⟩)
  exact ⟨_, P', hrun, hP', hle⟩

end Pool

end Catalist
