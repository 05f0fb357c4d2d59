import Catalist.Pool.Accounting
import Catalist.WithdrawalQueue.Solvency

/-!
# The shares that the withdrawal queue holds

Requests bring shares to the queue, and a report hands the shares of the requests that it
finalizes to the burner. A report asks the burner whenever `prefinalize` returns shares, but it
finalizes only if `prefinalize` also returns ace to lock. The two agree exactly if one of the
batches is worth a wei at the simulated share rate.
-/

namespace Catalist

open Solidity Ledger ShareRate Transition

namespace WithdrawalQueue

variable {q q' : WithdrawalQueue} {m prev : Nat} {batches : List Nat}

/--
The requests after `prev` up to `e` are worth a wei at the rate `m`: they have a value, and either
`m` does not discount them or the discounted value is not rounded down to zero.
-/
def WorthAWei (q : WithdrawalQueue) (m prev e : Nat) : Prop :=
  let bACE := (q.queue e).cumulativeBACE - (q.queue prev).cumulativeBACE
  let shares := (q.queue e).cumulativeShares - (q.queue prev).cumulativeShares
  0 < bACE ∧ (bACE * E27_PRECISION_BASE / shares ≤ m ∨ E27_PRECISION_BASE ≤ shares * m)

/-- One of the batches that end at `batches`, the first one starting after `prev`, is. -/
def Worthwhile (q : WithdrawalQueue) (m : Nat) : List Nat → Nat → Prop
  | [], _ => False
  | e :: rest, prev => q.WorthAWei m prev e ∨ q.Worthwhile m rest e

/-- The shares to burn are those of all requests in the batches. -/
theorem prefinalizeLoop_burn {eth burn eth' burn' : Nat}
    (h : q.prefinalizeLoop m batches prev eth burn = .ok (eth', burn')) :
    burn' + (q.queue prev).cumulativeShares
      = burn + (q.queue (batches.getLastD prev)).cumulativeShares := by
  induction batches generalizing prev eth burn with
  | nil =>
    cases h
    rfl
  | cons e rest ih =>
    obtain ⟨_, batch, batchEth, hbatch, _, hrest⟩ := prefinalizeLoop_cons_ok_cases h
    obtain ⟨_, hle, _, _, rfl⟩ := calcBatch_eq_ok.mp hbatch
    have htail := ih hrest
    simp only at htail
    rw [List.getLastD_cons]
    omega

/-- Every batch has shares. -/
theorem burn_pos_of_prefinalizeLoop {eth burn eth' burn' : Nat} (hne : batches ≠ [])
    (h : q.prefinalizeLoop m batches prev eth burn = .ok (eth', burn')) : burn < burn' := by
  induction batches generalizing prev eth burn with
  | nil => exact absurd rfl hne
  | cons e rest ih =>
    obtain ⟨_, batch, batchEth, hbatch, _, hrest⟩ := prefinalizeLoop_cons_ok_cases h
    obtain ⟨_, _, _, hpos, rfl⟩ := calcBatch_eq_ok.mp hbatch
    simp only at hrest
    cases rest with
    | nil =>
      cases hrest
      omega
    | cons e' rest =>
      have htail := ih (List.cons_ne_nil _ _) hrest
      omega

/-- There is ace to lock exactly if a batch is worth a wei. The induction is over the batches. -/
theorem prefinalizeLoop_eth {eth burn eth' burn' : Nat}
    (h : q.prefinalizeLoop m batches prev eth burn = .ok (eth', burn')) :
    eth ≤ eth' ∧ (eth < eth' ↔ q.Worthwhile m batches prev) := by
  induction batches generalizing prev eth burn with
  | nil =>
    cases h
    exact ⟨Nat.le_refl _, by simp [Worthwhile]⟩
  | cons e rest ih =>
    obtain ⟨_, batch, batchEth, hbatch, hprice, hrest⟩ := prefinalizeLoop_cons_ok_cases h
    obtain ⟨_, _, _, _, rfl⟩ := calcBatch_eq_ok.mp hbatch
    obtain ⟨hle, htail⟩ := ih hrest
    have hfirst : 0 < batchEth ↔ q.WorthAWei m prev e := by
      rw [batchAce_eq_due hprice]
      exact due_pos_iff (by decide)
    refine ⟨by omega, ?_⟩
    unfold Worthwhile
    rw [← hfirst, ← htail]
    omega

/-- What an accepted list of batches says about the amounts. -/
theorem prefinalize_amounts {eth burn : Nat} (h : q.prefinalize batches m = .ok (eth, burn)) :
    0 < burn ∧
    burn + (q.queue q.lastFinalizedRequestId).cumulativeShares
      = (q.queue (batches.getLastD 0)).cumulativeShares ∧
    (0 < eth ↔ q.Worthwhile m batches q.lastFinalizedRequestId) := by
  obtain ⟨_, hne, _, _, hloop⟩ := prefinalize_ok_cases h
  have hburn := prefinalizeLoop_burn hloop
  have hlast : batches.getLastD q.lastFinalizedRequestId = batches.getLastD 0 := by
    cases batches with
    | nil => exact absurd rfl hne
    | cons e rest => rw [List.getLastD_cons, List.getLastD_cons]
  rw [hlast] at hburn
  exact ⟨burn_pos_of_prefinalizeLoop hne hloop, by omega, (prefinalizeLoop_eth hloop).2⟩

end WithdrawalQueue

namespace Pool

variable {s s' : Pool} {env : Env} {data : OracleReportedData}
  {distribution : StakingRewardsDistribution} {context : OracleReportContext}
  {amounts : PostRebaseAmounts}

/-- The shares of all requests up to `id`. -/
def cumulativeSharesAt (s : Pool) (id : Nat) : Nat := (s.queue.queue id).cumulativeShares

def queueShares (s : Pool) : Nat := s.token.sharesOf s.locator.withdrawalQueue

/-- The queue holds the shares of the requests that are not finalized. -/
structure Custody (s : Pool) : Prop where
  covered : s.cumulativeSharesAt s.queue.lastRequestId
    ≤ s.queueShares + s.cumulativeSharesAt s.queue.lastFinalizedRequestId
  finalized_le : s.queue.lastFinalizedRequestId ≤ s.queue.lastRequestId
  self_ne : s.token.self ≠ s.locator.withdrawalQueue

/-- If a report is to finalize requests, one of its batches is worth a wei. -/
def Settles (s : Pool) (env : Env) (data : OracleReportedData) : Prop :=
  data.withdrawalFinalizationBatches = [] ∨ s.queue.isPaused env = true ∨
  s.queue.Worthwhile data.simulatedShareRate data.withdrawalFinalizationBatches
    s.queue.lastFinalizedRequestId

/-- The `n` shares that went to the burner are those of the requests that were finalized. -/
structure Settled (s s' : Pool) (n : Nat) : Prop where
  moved_iff : 0 < n ↔ s.queue.lastFinalizedRequestId < s'.queue.lastFinalizedRequestId
  exactly : n + s.cumulativeSharesAt s.queue.lastFinalizedRequestId
    = s'.cumulativeSharesAt s'.queue.lastFinalizedRequestId

/-- What a report leaves of the queue's shares; only a fee that is paid to the queue adds to them. -/
theorem ReportEffects.queueShares (hself : s.token.self ≠ s.locator.withdrawalQueue)
    (h : ReportEffects s s' env data distribution context amounts) :
    s.queueShares ≤ s'.queueShares + context.sharesToBurnFromWithdrawalQueue ∧
    (s.locator.withdrawalQueue ∉ s.feeRecipients distribution →
      s'.queueShares + context.sharesToBurnFromWithdrawalQueue = s.queueShares) := by
  obtain ⟨token, hburnt, hpaid⟩ := h.token
  have htaken := hburnt.taken
  have hle := hpaid.le _ hself.symm
  have heq := hpaid.eq _ hself.symm
  unfold Pool.queueShares BACE.sharesOf
  rw [h.locator]
  refine ⟨by omega, fun hnot => ?_⟩
  rw [heq hnot]
  exact htaken

/-- **A report settles exactly if it has nothing to finalize or a batch is worth a wei.** -/
theorem ReportEffects.settled_iff (h : ReportEffects s s' env data distribution context amounts) :
    Settled s s' context.sharesToBurnFromWithdrawalQueue ↔ s.Settles env data := by
  rcases h.prepared with ⟨hlock, hburn, hnothing⟩ | ⟨hrunning, hprefinalize⟩
  · -- nothing is burnt, and nothing is finalized
    rcases h.finalized with ⟨_, hqueue⟩ | ⟨hpos, _⟩
    · constructor
      · intro _
        rcases hnothing with hempty | hpaused
        · exact .inl hempty
        · exact .inr (.inl hpaused)
      · intro _
        rw [hburn]
        exact {
          moved_iff := by
            rw [hqueue]
            simp
          exactly := by
            simp only [cumulativeSharesAt, hqueue]
            omega }
    · omega
  · obtain ⟨hburn, hsum, hworth⟩ := WithdrawalQueue.prefinalize_amounts hprefinalize
    obtain ⟨_, hne, _, _, _⟩ := WithdrawalQueue.prefinalize_ok_cases hprefinalize
    have hsettles : s.Settles env data ↔
        s.queue.Worthwhile data.simulatedShareRate data.withdrawalFinalizationBatches
          s.queue.lastFinalizedRequestId := by
      simp [Settles, hne, hrunning]
    rw [hsettles, ← hworth]
    rcases h.finalized with ⟨hzero, hqueue⟩ | ⟨hpos, hfinalized⟩
    · -- the shares were burnt, but nothing was finalized
      constructor
      · intro hsettled
        have hlt := hsettled.moved_iff.mp hburn
        rw [hqueue] at hlt
        omega
      · intro hpos
        omega
    · refine ⟨fun _ => hpos, fun _ => ?_⟩
      have hlt := hfinalized.lt_last
      exact {
        moved_iff := by
          rw [hfinalized.lastFinalizedRequestId]
          exact ⟨fun _ => hlt, fun _ => hburn⟩
        exactly := by
          simp only [cumulativeSharesAt, hfinalized.queue, hfinalized.lastFinalizedRequestId]
          exact hsum }

/-! ## The invariant -/

theorem custody_initial (h : Initial s) : Custody s := by
  obtain ⟨s₀, hfresh, h⟩ := h
  obtain ⟨_, token, total, _, hmint, rfl⟩ := initializePool_ok_cases hfresh.totalShares h
  obtain ⟨_, _, rfl⟩ := BACE.mintShares_ok_cases hmint
  have hwellFormed := WithdrawalQueue.wellFormed_initial hfresh.queue
  obtain ⟨q₀, env₀, hblank, hqueue⟩ := hfresh.queue
  have hlast : s₀.queue.lastRequestId = 0 := by
    rw [hqueue]
    exact hblank.lastRequestId
  have hfinalized := hwellFormed.finalized_le
  refine ⟨?_, hfinalized, hfresh.self_ne⟩
  show (s₀.queue.queue s₀.queue.lastRequestId).cumulativeShares
    ≤ _ + (s₀.queue.queue s₀.queue.lastFinalizedRequestId).cumulativeShares
  rw [show s₀.queue.lastFinalizedRequestId = s₀.queue.lastRequestId by omega]
  exact Nat.le_add_left _ _

/-- Calls that add no request, finalize none and take no shares from the queue. -/
theorem Custody.of_samePositions (hc : Custody s) (hlocator : s'.locator = s.locator)
    (hself : s'.token.self = s.token.self) (hpositions : SamePositions s.queue s'.queue)
    (hle : s.queueShares ≤ s'.queueShares) : Custody s' where
  covered := by
    have hcovered := hc.covered
    simp only [cumulativeSharesAt, hpositions.cumulativeShares, hpositions.lastRequestId,
      hpositions.lastFinalizedRequestId] at hcovered ⊢
    omega
  finalized_le := by
    rw [hpositions.lastRequestId, hpositions.lastFinalizedRequestId]
    exact hc.finalized_le
  self_ne := by
    rw [hself, hlocator]
    exact hc.self_ne

theorem SamePositions.refl {q : WithdrawalQueue} : SamePositions q q where
  cumulativeShares _ := rfl
  lastRequestId := rfl
  lastFinalizedRequestId := rfl

theorem Custody.shifted {source : Address} (hc : Custody s) (h : Shifted s s' source)
    (hne : source ≠ s.locator.withdrawalQueue) (hpositions : SamePositions s.queue s'.queue) :
    Custody s' := by
  refine hc.of_samePositions h.locator h.self hpositions ?_
  unfold queueShares BACE.sharesOf
  rw [h.locator]
  exact h.le _ hne.symm

/-- A request brings at least the shares that it records. -/
theorem Custody.enqueued {source : Address} (hc : Custody s)
    (hne : source ≠ s.locator.withdrawalQueue) (h : Enqueued s s' env source) : Custody s' := by
  obtain ⟨n, amount, owner, requestId, allowances, queue, wbACE, hle, henqueue, rfl⟩ := h
  obtain ⟨_, _, _, rfl⟩ := WithdrawalQueue.enqueue_ok_cases henqueue
  have hcovered := hc.covered
  have hfinalized := hc.finalized_le
  refine ⟨?_, Nat.le_succ_of_le hfinalized, hc.self_ne⟩
  simp only [cumulativeSharesAt, queueShares, BACE.sharesOf] at hcovered ⊢
  rw [move_to hne.symm, Function.update_self, Function.update_of_ne (by omega)]
  simp only
  omega

theorem Custody.submit {blockNumber n : Nat} (hc : Custody s)
    (h : s.submit env blockNumber = .ok (s', n)) : Custody s' := by
  obtain ⟨_, _, _, token, _, _, _, hmint, _, rfl⟩ := submit_ok_cases h
  obtain ⟨_, _, rfl⟩ := BACE.mintShares_ok_cases hmint
  refine hc.of_samePositions rfl rfl SamePositions.refl ?_
  show s.token.shares _ ≤ Function.update s.token.shares env.sender _ _
  rcases eq_or_ne s.locator.withdrawalQueue env.sender with heq | hne
  · rw [heq, Function.update_self]
    exact Nat.le_add_right _ _
  · rw [Function.update_of_ne hne]

theorem Custody.requestWithdrawals {amounts requestIds : List Nat} {owner : Address}
    (hc : Custody s) (hne : env.sender ≠ s.locator.withdrawalQueue)
    (h : s.requestWithdrawals env amounts owner = .ok (s', requestIds)) : Custody s' := by
  obtain ⟨_, h⟩ := requestWithdrawals_ok_cases h
  have hloop := requestWithdrawalsLoop_rel
    (R := fun s s' => s'.locator = s.locator ∧
      (env.sender ≠ s.locator.withdrawalQueue → Custody s → Custody s'))
    (fun _ => ⟨rfl, fun _ hc => hc⟩) ?_ ?_ h
  · exact hloop.2 hne hc
  · rintro s₁ s₂ s₃ ⟨hlocator, h₁⟩ ⟨hlocator', h₂⟩
    refine ⟨hlocator'.trans hlocator, fun hne hc => h₂ ?_ (h₁ hne hc)⟩
    rw [hlocator]
    exact hne
  · intro s₁ s₂ henqueued
    exact ⟨henqueued.shifted.locator, fun hne hc => hc.enqueued hne henqueued⟩

theorem Custody.requestWithdrawalsWbACE {amounts requestIds : List Nat} {owner : Address}
    (hc : Custody s) (h : s.requestWithdrawalsWbACE env amounts owner = .ok (s', requestIds)) :
    Custody s' := by
  obtain ⟨_, h⟩ := requestWithdrawalsWbACE_ok_cases h
  exact requestWithdrawalsWbACELoop_rel (R := fun s s' => Custody s → Custody s')
    (fun _ hc => hc) (fun _ _ _ h₁ h₂ hc => h₂ (h₁ hc))
    (fun s₁ _ henqueued hc => hc.enqueued s₁.locator.wbACE_ne_withdrawalQueue henqueued) h hc

theorem Custody.report (hc : Custody s) (hsettles : s.Settles env data)
    (h : ReportEffects s s' env data distribution context amounts) : Custody s' := by
  have hsettled := h.settled_iff.mpr hsettles
  have hexactly := hsettled.exactly
  have hcovered := hc.covered
  have hshares := (h.queueShares hc.self_ne).1
  obtain ⟨token, hburnt, hpaid⟩ := h.token
  have hself : s'.token.self ≠ s'.locator.withdrawalQueue := by
    rw [h.locator, hpaid.self, hburnt.self]
    exact hc.self_ne
  rcases h.finalized with ⟨_, hqueue⟩ | ⟨_, hfinalized⟩
  · refine ⟨?_, ?_, hself⟩
    · simp only [cumulativeSharesAt, hqueue] at hexactly hcovered ⊢
      omega
    · rw [hqueue]
      exact hc.finalized_le
  · refine ⟨?_, ?_, hself⟩
    · simp only [cumulativeSharesAt, hfinalized.queue, hfinalized.lastRequestId] at hexactly hcovered ⊢
      omega
    · rw [hfinalized.lastFinalizedRequestId, hfinalized.lastRequestId]
      exact hfinalized.le_lastRequestId

end Pool

/-- The condition on a report; other calls have none. -/
def Action.Settles (s : Pool) : Action → Prop
  | .handleOracleReport env data _ => s.Settles env data
  | _ => True

/-- The queue itself moves none of its shares, and the reports settle. -/
structure Action.Custodial (s : Pool) (action : Action) : Prop where
  source_ne : action.source s ≠ some s.locator.withdrawalQueue
  settles : action.Settles s

namespace Pool

variable {s s' : Pool}

theorem Custody.step (hc : Custody s) (h : Step (fun s action => action.Custodial s) s s') :
    Custody s' := by
  cases h with
  | other h =>
    refine hc.of_samePositions h.locator h.self h.positions ?_
    unfold queueShares BACE.sharesOf
    rw [h.locator, h.shares]
  | call action hcustodial h =>
    have hsource := hcustodial.source_ne
    cases action with
    | submit env blockNumber =>
      obtain ⟨⟨s₁, n⟩, hrun, rfl⟩ := map_eq_ok.mp h
      exact hc.submit hrun
    | deposit env maxDepositsCount getStakingModuleMaxDepositsCount =>
      obtain ⟨_, _, _, rfl⟩ := deposit_ok_cases h
      refine hc.of_samePositions rfl rfl SamePositions.refl ?_
      unfold queueShares
      exact Nat.le_refl _
    | unsafeChangeDepositedValidators canPerform newDepositedValidators =>
      obtain rfl := unsafeChangeDepositedValidators_ok_cases h
      refine hc.of_samePositions rfl rfl SamePositions.refl ?_
      unfold queueShares
      exact Nat.le_refl _
    | handleOracleReport env data distribution =>
      obtain ⟨⟨s₁, amounts⟩, hrun, rfl⟩ := map_eq_ok.mp h
      obtain ⟨_, context, hinternal⟩ := handleOracleReport_eq_ok.mp hrun
      exact hc.report hcustodial.settles (reportEffects hinternal)
    -- tokens are not taken from the queue, so it keeps its shares
    | token op caller =>
      have hshifted := Action.shifted rfl h
      obtain ⟨token, _, rfl⟩ := map_eq_ok.mp h
      exact hc.shifted hshifted (fun heq => hsource (congrArg some heq)) SamePositions.refl
    | requestBurnShares caller fromAddr sharesAmount =>
      have hshifted := Action.shifted rfl h
      obtain ⟨_, _, _, rfl⟩ := requestBurnShares_ok_cases h
      exact hc.shifted hshifted (fun heq => hsource (congrArg some heq)) SamePositions.refl
    | requestWithdrawals env amounts owner =>
      obtain ⟨⟨s₁, requestIds⟩, hrun, rfl⟩ := map_eq_ok.mp h
      exact hc.requestWithdrawals (fun heq => hsource (congrArg some heq)) hrun
    | requestWithdrawalsWbACE env amounts owner =>
      obtain ⟨⟨s₁, requestIds⟩, hrun, rfl⟩ := map_eq_ok.mp h
      exact hc.requestWithdrawalsWbACE hrun

theorem custody_of_reachable (h : Reachable Initial (Step fun s action => action.Custodial s) s) :
    Custody s :=
  h.invariant (fun _ hinit => custody_initial hinit) fun _ _ hc hs => hc.step hs

/--
**Custody of the shares of requests.** In every run whose reports settle, the queue holds the
shares of the requests that are not finalized. An accepted report hands to the burner exactly the
shares of the requests that it finalizes if and only if it settles.
-/
theorem custody (h : Reachable Initial (Step fun s action => action.Custodial s) s) :
    s.cumulativeSharesAt s.queue.lastRequestId
      - s.cumulativeSharesAt s.queue.lastFinalizedRequestId ≤ s.queueShares ∧
    ∀ env data distribution s' amounts,
      s.handleOracleReport env data distribution = .ok (s', amounts) →
      ∃ context,
        s.handleOracleReportInternal env data distribution = .ok (s', context, amounts) ∧
        s.queueShares ≤ s'.queueShares + context.sharesToBurnFromWithdrawalQueue ∧
        (s.locator.withdrawalQueue ∉ s.feeRecipients distribution →
          s'.queueShares + context.sharesToBurnFromWithdrawalQueue = s.queueShares) ∧
        (Settled s s' context.sharesToBurnFromWithdrawalQueue ↔ s.Settles env data) := by
  have hc := custody_of_reachable h
  have hcovered := hc.covered
  refine ⟨by omega, ?_⟩
  intro env data distribution s' amounts hreport
  obtain ⟨_, context, hinternal⟩ := handleOracleReport_eq_ok.mp hreport
  have heffects := reportEffects hinternal
  obtain ⟨hle, heq⟩ := heffects.queueShares hc.self_ne
  exact ⟨context, hinternal, hle, heq, heffects.settled_iff⟩

theorem custodial_exampleActions : ∀ action ∈ exampleActions, ∀ s₁ : Pool,
    s₁.locator = exampleStart.locator → action.Custodial s₁ := by
  intro action ha s₁ hlocator
  have hqueue : s₁.locator.withdrawalQueue = 15 := by
    rw [hlocator]
    decide +kernel
  simp only [exampleActions, List.mem_cons, List.not_mem_nil, or_false] at ha
  rcases ha with rfl | rfl | rfl | rfl
  all_goals
    refine ⟨?_, trivial⟩
    rw [hqueue]
    simp [Action.source, BACE.TokenOp.source]

/-- The report of the example burns the shares of the request that it finalizes. -/
theorem custody_one_request : ∃ context,
    examplePool.handleOracleReportInternal exampleReportEnv exampleData exampleDistribution
      = .ok (exampleReport.1, context, exampleReport.2) ∧
    Settled examplePool exampleReport.1 context.sharesToBurnFromWithdrawalQueue := by
  have hreachable : Reachable Initial (Step fun s action => action.Custodial s) examplePool :=
    reachable_runAll (.init initial_exampleStart) custodial_exampleActions
      (eq_ok_result _ (by decide +kernel))
  obtain ⟨-, hreports⟩ := custody hreachable
  obtain ⟨context, hinternal, -, -, hiff⟩ := hreports exampleReportEnv exampleData
    exampleDistribution exampleReport.1 exampleReport.2 (eq_ok_result _ (by decide +kernel))
  refine ⟨context, hinternal, hiff.mpr (.inr (.inr (.inl ⟨?_, .inl ?_⟩)))⟩
  · decide +kernel
  · decide +kernel

/-! ## A report that does not settle -/

def exampleDustStart : Pool :=
  result ({ exampleGenesis with limits := { exampleGenesis.limits with
    simulatedShareRateDeviationBPLimit := MAX_BASIS_POINTS } }.initializePool) (by decide +kernel)

/-- A request of the smallest amount. -/
def exampleDustActions : List Action :=
  [.submit ⟨100, 10 ^ 18, 10, exampleSubmitTime_pos⟩ 5,
   .token (.approve 15 100) 100,
   .requestWithdrawals ⟨100, 0, 20, exampleRequestTime_pos⟩ [100] 0]

/-- It is to be finalized at a rate that leaves nothing of it. -/
def exampleDustData : OracleReportedData where
  reportTimestamp := 40
  timeElapsed := 86400
  clValidators := 0
  postCLBalance := 0
  withdrawalVaultBalance := 0
  elRewardsVaultBalance := 0
  sharesRequestedToBurn := 0
  withdrawalFinalizationBatches := [1]
  simulatedShareRate := 1

def exampleDustPool : Pool :=
  result (exampleDustStart.runAll exampleDustActions) (by decide +kernel)

theorem custodial_exampleDustActions : ∀ action ∈ exampleDustActions, ∀ s₁ : Pool,
    s₁.locator = exampleDustStart.locator → action.Custodial s₁ := by
  intro action ha s₁ hlocator
  have hqueue : s₁.locator.withdrawalQueue = 15 := by
    rw [hlocator]
    decide +kernel
  simp only [exampleDustActions, List.mem_cons, List.not_mem_nil, or_false] at ha
  rcases ha with rfl | rfl | rfl
  all_goals
    refine ⟨?_, trivial⟩
    rw [hqueue]
    simp [Action.source, BACE.TokenOp.source]

theorem initial_exampleDustStart : Initial exampleDustStart := by
  refine ⟨_, ?_, eq_ok_result _ (by decide +kernel)⟩
  exact { fresh_exampleGenesis with }

def exampleDustReport : Pool × OracleReportContext × PostRebaseAmounts :=
  result (exampleDustPool.handleOracleReportInternal exampleReportEnv exampleDustData
    exampleDistribution) (by decide +kernel)

/-- The report takes the shares of the request away, but does not finalize it. -/
theorem not_custody_of_dust : ∃ s' context amounts,
    Reachable Initial (Step fun s action => action.Custodial s) exampleDustPool ∧
    exampleDustPool.limits.Admitted ∧
    exampleDustPool.handleOracleReport exampleReportEnv exampleDustData exampleDistribution
      = .ok (s', amounts) ∧
    exampleDustPool.handleOracleReportInternal exampleReportEnv exampleDustData
      exampleDistribution = .ok (s', context, amounts) ∧
    0 < context.sharesToBurnFromWithdrawalQueue ∧
    s'.queue.lastFinalizedRequestId = exampleDustPool.queue.lastFinalizedRequestId ∧
    s'.queueShares < s'.cumulativeSharesAt s'.queue.lastRequestId
      - s'.cumulativeSharesAt s'.queue.lastFinalizedRequestId := by
  have hreachable : Reachable Initial (Step fun s action => action.Custodial s) exampleDustPool :=
    reachable_runAll (.init initial_exampleDustStart) custodial_exampleDustActions
      (eq_ok_result _ (by decide +kernel))
  have hlimits : exampleDustPool.limits.Admitted := by
    constructor <;> decide +kernel
  have hinternal : exampleDustPool.handleOracleReportInternal exampleReportEnv exampleDustData
      exampleDistribution = .ok exampleDustReport := eq_ok_result _ (by decide +kernel)
  refine ⟨exampleDustReport.1, exampleDustReport.2.1, exampleDustReport.2.2, hreachable, hlimits,
    handleOracleReport_eq_ok.mpr ⟨?_, exampleDustReport.2.1, hinternal⟩, hinternal, ?_, ?_, ?_⟩
  all_goals decide +kernel

end Pool

end Catalist
