import Catalist.Oracle.ExtraDataRuns
import Catalist.Oracle.ProcessingDiscipline
import Catalist.Pool.Steps
import Catalist.WithdrawalQueue.Callbacks

/-!
# From the committee to the pool

The members of the committee, the consensus contract, the accounting oracle, the pool and its
withdrawal queue as one system. What the pool knows about the beacon chain, and whether it is in
bunker mode, is what the last report said, and every report was submitted by a quorum. The slots of
the frames fit 64 bits, and the oracle alone may report to the pool and the queue.
-/

namespace Catalist

open Solidity HashConsensus Transition

/-! ## Submitted reports -/

namespace ConsensusSystem

variable {s s' : ConsensusSystem} {env : Env} {frame : ConsensusFrame} {report : Hash} {i : Nat}

/-- The report that the processor has was submitted to it. -/
def Filed (s : ConsensusSystem) : Prop :=
  s.processor.consensusReport.hash ≠ ZERO_HASH → ∃ e ∈ s.submissions,
    e.report = s.processor.consensusReport.hash ∧ e.refSlot = s.processor.consensusReport.refSlot

theorem Filed.of_eq (h : Filed s) (hprocessor : s'.processor = s.processor)
    (hsubmissions : s'.submissions = s.submissions) : Filed s' := by
  unfold Filed
  rw [hprocessor, hsubmissions]
  exact h

theorem Filed.withProcessor {p : BaseOracle} (h : Filed s)
    (hreport : p.consensusReport = s.processor.consensusReport) : Filed (s.withProcessor p) := by
  unfold Filed
  rw [processor_withProcessor, hreport]
  exact h

theorem Filed.consensusReached (h : Filed s)
    (hreached : s.consensusReached env frame report i = .ok s') : Filed s' := by
  rcases consensusReached_ok_cases hreached with ⟨-, -, rfl⟩ | ⟨deadline, p, hp, rfl⟩
  · exact h
  · obtain ⟨-, -, -, rfl⟩ := BaseOracle.submitConsensusReport_ok_cases hp
    refine fun _ => ⟨_, List.mem_append_right _ (List.mem_singleton_self _), ?_⟩
    simp [processor, submitted, HashConsensus.withConsensus]

theorem Filed.consensusNotReached (h : Filed s)
    (hlost : s.consensusNotReached env frame = .ok s') : Filed s' := by
  rcases consensusNotReached_ok_cases hlost with ⟨-, rfl⟩ | ⟨-, p, hp, rfl⟩
  · exact h
  · obtain ⟨-, ⟨-, rfl⟩ | ⟨-, rfl⟩⟩ := BaseOracle.discardConsensusReport_ok_cases hp
    · refine h.of_eq ?_ rfl
      simp [processor, HashConsensus.withConsensus]
    · intro hne
      simp [processor, HashConsensus.withConsensus] at hne

theorem Filed.checkConsensus {quorum : Nat} (h : Filed s)
    (hfit : s.consensus.SlotsFit env.timestamp) (hcheck : s.checkConsensus env quorum = .ok s') :
    Filed s' := by
  obtain ⟨frame, -, ⟨-, rfl⟩ | ⟨-, ⟨i, -, -, -, hreached⟩ | ⟨-, hlost⟩⟩⟩ :=
    checkConsensus_ok_cases hfit hcheck
  · exact h
  · exact h.consensusReached hreached
  · exact h.consensusNotReached hlost

theorem Filed.setQuorumAndCheckConsensus {quorum totalMembers : Nat} (h : Filed s)
    (hfit : s.consensus.SlotsFit env.timestamp)
    (hset : s.setQuorumAndCheckConsensus env quorum totalMembers = .ok s') : Filed s' := by
  have hquorum : Filed (s.withQuorum quorum) := h.of_eq rfl rfl
  obtain ⟨-, ⟨-, rfl⟩ | hcheck⟩ := setQuorumAndCheckConsensus_ok_cases hset
  · exact hquorum
  · exact hquorum.checkConsensus hfit hcheck

theorem Filed.call (h : Filed s) (hinv : Inv s env.timestamp)
    (hfit : s.consensus.SlotsFit env.timestamp) (hcall : ContractCall env s s') : Filed s' := by
  cases hcall with
  | addMember hadd =>
    obtain ⟨-, hset⟩ := addMember_ok_cases hadd
    refine Filed.setQuorumAndCheckConsensus ?_ ?_ hset
    · exact h.of_eq rfl rfl
    · exact hfit
  | removeMember hremove =>
    obtain ⟨index, last, m, s₁, haddr, hlast, hm, hcancel, hset⟩ :=
      removeMember_ok_cases hinv.kept.lengths hinv.kept.indexed hremove
    have hprep := prepared_of_cancelMemberReport hinv hfit haddr hlast hm hcancel
    have hfit₁ : s₁.consensus.SlotsFit env.timestamp := by
      simpa only [SlotsFit, hprep.chain, hprep.frameConfig] using hfit
    exact Filed.setQuorumAndCheckConsensus (h.of_eq hprep.processor hprep.submissions) hfit₁ hset
  | setQuorum hset => exact h.setQuorumAndCheckConsensus hfit hset
  | disableConsensus hset => exact h.setQuorumAndCheckConsensus hfit hset
  | submitReport hsubmit =>
    obtain ⟨frame, -, -, ⟨-, rfl⟩ | ⟨-, -, k, m, v, c', -, -, -, -, -, hcount, hcases⟩⟩ :=
      submitReport_ok_cases hsubmit
    · exact h
    · have hprocessor : processor { s with consensus := c' } = s.processor := by
        simp only [processor]
        rw [hcount.tables]
      have hcounted : Filed { s with consensus := c' } := h.of_eq hprocessor rfl
      rcases hcases with ⟨-, hreached⟩ | ⟨-, ⟨-, -, hlost⟩ | ⟨-, rfl⟩⟩
      · exact hcounted.consensusReached hreached
      · exact hcounted.consensusNotReached hlost
      · exact hcounted

theorem filed_of_reachable {x : ConsensusSystem × Nat} (h : Reachable Deployed AttachedStep x) :
    Filed x.1 := by
  induction h with
  | @init x hdeployed =>
    have hagreement : Agreement x.1 x.2 := agreement_of_deployed hdeployed
    obtain ⟨_, _, _, _, _, _, -, -, -, -, hblank, -⟩ := hdeployed
    have hversion : x.1.processor.contractVersion = 0 := by
      have hblank : x.1.processor = _ := hblank
      rw [hblank]
      rfl
    intro hne
    exact absurd (hagreement.blank hversion).2.1 hne
  | step hreach hs ih =>
    have hagreement := agreement_of_reachable hreach
    cases hs with
    | call hcall => exact ih.call hagreement.inv hagreement.fits hcall
    | clock hclock =>
      have hreframed := hclock.reframed
      exact ih.of_eq hreframed.processor hreframed.submissions
    | setup hsetup =>
      cases hsetup with
      | initializeOracle hp =>
        obtain ⟨hversion, -, rfl⟩ := BaseOracle.initializeOracle_ok_cases hp
        intro hne
        rw [processor_withProcessor] at hne
        exact absurd (hagreement.blank hversion).2.1 hne
      | setConsensusVersion hp =>
        obtain rfl := BaseOracle.setConsensusVersion_ok_cases hp
        exact ih.withProcessor rfl
    | startProcessing hp =>
      obtain ⟨-, rfl⟩ := BaseOracle.startProcessing_ok_cases hp
      exact ih.withProcessor rfl

end ConsensusSystem

/-! ## The pool between reports -/

/-- `isBunkerModeActive` of the withdrawal queue -/
def Pool.isBunkerModeActive (s : Pool) : Bool :=
  s.bunkerModeSinceTimestamp < BUNKER_MODE_DISABLED_TIMESTAMP

/-- What the pool and the queue know from reports stays. -/
structure Pool.Unreported (s s' : Pool) : Prop where
  clBalance : s'.clBalance = s.clBalance
  clValidators : s'.clValidators = s.clValidators
  bunkerModeSinceTimestamp : s'.bunkerModeSinceTimestamp = s.bunkerModeSinceTimestamp
  lastReportTimestamp : s'.queue.lastReportTimestamp = s.queue.lastReportTimestamp

/-- Requests, claims, transfers and approvals leave the time of the last report. -/
theorem WithdrawalQueue.Performs.lastReportTimestamp_eq {q q' : WithdrawalQueue}
    {action : QueueAction} (h : WithdrawalQueue.Performs q action q') (hother : action ≠ .other) :
    q'.lastReportTimestamp = q.lastReportTimestamp := by
  cases h with
  | request env henqueue =>
    obtain ⟨-, -, -, rfl⟩ := WithdrawalQueue.enqueue_ok_cases henqueue
    rfl
  | finalize env hfinalize =>
    obtain ⟨-, -, rfl⟩ := WithdrawalQueue.finalize_ok_cases hfinalize
    rfl
  | approve env happrove =>
    obtain ⟨-, -, -, -, rfl⟩ := WithdrawalQueue.approve_ok_cases happrove
    rfl
  | setApprovalForAll env hset =>
    obtain rfl := WithdrawalQueue.setApprovalForAll_ok_cases hset
    rfl
  | transfer env htransfer =>
    obtain ⟨-, -, -, -, -, rfl⟩ := WithdrawalQueue.transfer_ok_cases htransfer
    rfl
  | claim env hclaim =>
    obtain ⟨-, -, -, -, _, -, -, -, -, rfl⟩ := WithdrawalQueue.claim_ok_cases hclaim
    rfl
  | other => exact absurd rfl hother

namespace Pool

variable {s s' s'' : Pool} {env : Env}

theorem Unreported.refl (s : Pool) : s.Unreported s := ⟨rfl, rfl, rfl, rfl⟩

theorem Unreported.trans (h : s.Unreported s') (h' : s'.Unreported s'') : s.Unreported s'' where
  clBalance := h'.clBalance.trans h.clBalance
  clValidators := h'.clValidators.trans h.clValidators
  bunkerModeSinceTimestamp := h'.bunkerModeSinceTimestamp.trans h.bunkerModeSinceTimestamp
  lastReportTimestamp := h'.lastReportTimestamp.trans h.lastReportTimestamp

theorem Unreported.isBunkerModeActive (h : s.Unreported s') :
    s'.isBunkerModeActive = s.isBunkerModeActive := by
  unfold Pool.isBunkerModeActive
  rw [h.bunkerModeSinceTimestamp]

theorem Enqueued.unreported {source : Address} (h : Enqueued s s' env source) :
    s.Unreported s' := by
  obtain ⟨_, _, _, _, _, _, _, -, henqueue, rfl⟩ := h
  obtain ⟨-, -, -, rfl⟩ := WithdrawalQueue.enqueue_ok_cases henqueue
  exact ⟨rfl, rfl, rfl, rfl⟩

/-- A report that is handled came from the accounting oracle. -/
theorem sender_of_handleOracleReport {data : OracleReportedData}
    {distribution : StakingRewardsDistribution} {amounts : PostRebaseAmounts}
    (h : s.handleOracleReport env data distribution = .ok (s', amounts)) :
    env.sender = s.locator.accountingOracle := by
  obtain ⟨-, context, hinternal⟩ := handleOracleReport_eq_ok.mp h
  simp only [handleOracleReportInternal, bind_eq_ok, require_eq_ok] at hinternal
  obtain ⟨_, hsender, -⟩ := hinternal
  exact hsender

end Pool

theorem Action.unreported {action : Action} {s s' : Pool}
    (hother : ∀ env data distribution, action = .handleOracleReport env data distribution →
      env.sender ≠ s.locator.accountingOracle)
    (h : action.run s = .ok s') : s.Unreported s' := by
  cases action with
  | submit env blockNumber =>
    obtain ⟨⟨s₁, n⟩, hrun, rfl⟩ := map_eq_ok.mp h
    obtain ⟨_, _, _, _, _, _, _, _, _, rfl⟩ := Pool.submit_ok_cases hrun
    exact ⟨rfl, rfl, rfl, rfl⟩
  | deposit env maxDepositsCount getStakingModuleMaxDepositsCount =>
    obtain ⟨_, _, _, rfl⟩ := Pool.deposit_ok_cases h
    exact ⟨rfl, rfl, rfl, rfl⟩
  | unsafeChangeDepositedValidators canPerform newDepositedValidators =>
    obtain rfl := Pool.unsafeChangeDepositedValidators_ok_cases h
    exact ⟨rfl, rfl, rfl, rfl⟩
  | handleOracleReport env data distribution =>
    obtain ⟨⟨s₁, amounts⟩, hrun, rfl⟩ := map_eq_ok.mp h
    exact absurd (Pool.sender_of_handleOracleReport hrun) (hother env data distribution rfl)
  | token op caller =>
    obtain ⟨token, -, rfl⟩ := map_eq_ok.mp h
    exact ⟨rfl, rfl, rfl, rfl⟩
  | requestBurnShares caller fromAddr sharesAmount =>
    obtain ⟨_, _, -, rfl⟩ := Pool.requestBurnShares_ok_cases h
    exact ⟨rfl, rfl, rfl, rfl⟩
  | requestWithdrawals env amounts owner =>
    obtain ⟨⟨s₁, requestIds⟩, hrun, rfl⟩ := map_eq_ok.mp h
    obtain ⟨owner, hloop⟩ := Pool.requestWithdrawals_ok_cases hrun
    exact Pool.requestWithdrawalsLoop_rel Pool.Unreported.refl (fun _ _ _ h h' => h.trans h')
      (fun _ _ => Pool.Enqueued.unreported) hloop
  | requestWithdrawalsWbACE env amounts owner =>
    obtain ⟨⟨s₁, requestIds⟩, hrun, rfl⟩ := map_eq_ok.mp h
    obtain ⟨owner, hloop⟩ := Pool.requestWithdrawalsWbACE_ok_cases hrun
    exact Pool.requestWithdrawalsWbACELoop_rel Pool.Unreported.refl (fun _ _ _ h h' => h.trans h')
      (fun _ _ => Pool.Enqueued.unreported) hloop

/-! ## What a report does -/

namespace Pool

variable {s s' : Pool} {env : Env} {data : OracleReportedData}
  {distribution : StakingRewardsDistribution} {amounts : PostRebaseAmounts}

theorem lastReportTimestamp_finalizeWithdrawals {batches : List Nat} {m aceToLock : Nat}
    (h : s.finalizeWithdrawals env batches m aceToLock = .ok s') :
    s'.queue.lastReportTimestamp = s.queue.lastReportTimestamp := by
  unfold finalizeWithdrawals at h
  split at h
  · simp only [bind_eq_ok, require_eq_ok, within_eq_ok, pure_eq_ok] at h
    obtain ⟨_, _, _, _, queue, hfinalize, rfl⟩ := h
    obtain ⟨-, -, rfl⟩ := WithdrawalQueue.finalize_ok_cases hfinalize
    rfl
  · cases h
    rfl

theorem lastReportTimestamp_collectRewardsAndProcessWithdrawals {withdrawals elRewards : Nat}
    {batches : List Nat} {m aceToLock : Nat}
    (h : s.collectRewardsAndProcessWithdrawals env withdrawals elRewards batches m aceToLock
      = .ok s') (he : elRewards ≤ s.elRewardsVaultBalance) :
    s'.queue.lastReportTimestamp = s.queue.lastReportTimestamp := by
  simp only [collectRewardsAndProcessWithdrawals, bind_eq_ok, pure_eq_ok] at h
  obtain ⟨s₁, hrewards, s₂, hwithdrawals, s₃, hfinalize, _, _, _, _, _, _, rfl⟩ := h
  obtain ⟨_, rfl⟩ := collectELRewards_ok_cases he hrewards
  obtain ⟨-, rfl⟩ := collectWithdrawals_ok_cases hwithdrawals
  have htime := lastReportTimestamp_finalizeWithdrawals hfinalize
  exact htime

/-- A report leaves the bunker mode and the time of the last report to the withdrawal queue. -/
theorem handleOracleReport_keeps
    (h : s.handleOracleReport env data distribution = .ok (s', amounts)) :
    s'.bunkerModeSinceTimestamp = s.bunkerModeSinceTimestamp ∧
    s'.queue.lastReportTimestamp = s.queue.lastReportTimestamp := by
  obtain ⟨-, context, hinternal⟩ := handleOracleReport_eq_ok.mp h
  simp only [handleOracleReportInternal, bind_eq_ok, require_eq_ok, pure_eq_ok,
    Prod.mk.injEq] at hinternal
  obtain ⟨_, _, _, _, P, -, ⟨s₁, preCLBalance⟩, hstate, _, hcheck,
    ⟨s₂, aceToLock, sharesToBurn⟩, hprepare, rebase, hsmoothen, s₃, hcollect, s₄, hburn,
    ⟨s₅, sharesMintedAsFees⟩, hrewards, P', -, _, _, rfl, -, -⟩ := hinternal
  obtain ⟨-, -, -, rfl⟩ := processClStateUpdate_ok_cases hstate
  obtain ⟨-, helVault⟩ := checkAccountingOracleReport_ok_cases hcheck
  obtain ⟨-, _, _, -, rfl⟩ := prepareWithdrawals_ok_cases hprepare
  obtain ⟨-, he⟩ := smoothenTokenRebase_le hsmoothen
  have htime := lastReportTimestamp_collectRewardsAndProcessWithdrawals hcollect (he.trans helVault)
  obtain ⟨-, -, -, _, _, rfl, -⟩ :=
    collectRewardsAndProcessWithdrawals_ok_cases hcollect (he.trans helVault)
  obtain ⟨-, -, _, rfl⟩ := burnRequestedShares_ok_cases hburn
  obtain ⟨_, -, rfl⟩ := processRewards_ok_cases hrewards
  exact ⟨rfl, htime⟩

end Pool

/-- The time of a slot -/
def BaseOracle.timeOf (p : BaseOracle) (slot : Nat) : Nat :=
  p.genesisTime + slot * p.secondsPerSlot

/-- What the pool and the queue are told by a report, when `prevRefSlot` was processed before. -/
structure PoolInformed (p : BaseOracle) (data : AccountingReportData) (prevRefSlot now : Nat)
    (pool pool' : Pool) : Prop where
  clBalance : pool'.clBalance = data.clBalanceGwei * 10 ^ 9
  clValidators : pool'.clValidators = data.numValidators
  lastReportTimestamp : pool'.queue.lastReportTimestamp = p.timeOf data.refSlot
  passed : p.timeOf data.refSlot < now
  fits : p.timeOf data.refSlot < 2 ^ 256
  bunkerModeSinceTimestamp : pool'.bunkerModeSinceTimestamp =
    if data.isBunkerMode = pool.isBunkerModeActive then pool.bunkerModeSinceTimestamp
    else if data.isBunkerMode = true then p.timeOf prevRefSlot
    else BUNKER_MODE_DISABLED_TIMESTAMP

theorem Pool.onOracleReport_ok_cases {s s' : Pool} {env : Env} {hasOracleRole : Address → Bool}
    {isBunkerModeNow : Bool} {start current : Nat}
    (h : s.onOracleReport env hasOracleRole isBunkerModeNow start current = .ok s') :
    current < env.timestamp ∧
    s' = { s with
      queue := { s.queue with lastReportTimestamp := current }
      bunkerModeSinceTimestamp :=
        if isBunkerModeNow = s.isBunkerModeActive then s.bunkerModeSinceTimestamp
        else if isBunkerModeNow = true then start else BUNKER_MODE_DISABLED_TIMESTAMP } := by
  simp only [onOracleReport, bind_eq_ok, require_eq_ok] at h
  obtain ⟨_, -, _, -, _, hcurrent, h⟩ := h
  refine ⟨hcurrent, ?_⟩
  split at h
  · next hchanged =>
    have hchanged : ¬ isBunkerModeNow = s.isBunkerModeActive := hchanged
    rw [if_neg hchanged]
    exact (pure_eq_ok.mp h).symm
  · next hsame =>
    have hsame : isBunkerModeNow = s.isBunkerModeActive := not_not.mp hsame
    rw [if_pos hsame]
    exact (pure_eq_ok.mp h).symm

namespace AccountingOracle

variable {ρ : Type} {callees : ReportCallees ρ} {o o' : AccountingOracle}
  {data : AccountingReportData} {prevRefSlot slotsElapsed version : Nat}
  {env : AccountingReportEnv} {distribution : StakingRewardsDistribution} {router router' : ρ}
  {pool pool' : Pool}

theorem timestampAtSlot_eq_ok {p : BaseOracle} {slot time : Nat} :
    timestampAtSlot p slot = .ok time ↔ p.timeOf slot < 2 ^ 256 ∧ time = p.timeOf slot := by
  simp only [timestampAtSlot, BaseOracle.timeOf, bind_eq_ok, checkedMul_eq_ok, checkedAdd_eq_ok]
  constructor
  · rintro ⟨_, ⟨_, rfl⟩, hfits, rfl⟩
    exact ⟨hfits, rfl⟩
  · rintro ⟨hfits, rfl⟩
    exact ⟨_, ⟨by omega, rfl⟩, hfits, rfl⟩

theorem informed_of_reportToPool
    (h : o.reportToPool data prevRefSlot slotsElapsed env distribution pool = .ok pool') :
    PoolInformed o.base data prevRefSlot env.timestamp pool pool' := by
  simp only [reportToPool, bind_eq_ok, within_eq_ok, timestampAtSlot_eq_ok, checkedMul_eq_ok,
    pure_eq_ok] at h
  obtain ⟨_, ⟨-, rfl⟩, _, ⟨hfits, rfl⟩, pool₁, hqueue, _, -, _, -, _, ⟨-, rfl⟩, ⟨pool₂, amounts⟩,
    hreport, rfl⟩ := h
  obtain ⟨hpassed, rfl⟩ := Pool.onOracleReport_ok_cases hqueue
  unfold externalPool at hreport
  split at hreport
  · next hok =>
    cases hreport
    obtain ⟨hbunker, htime⟩ := Pool.handleOracleReport_keeps hok
    obtain ⟨-, context, hinternal⟩ := Pool.handleOracleReport_eq_ok.mp hok
    have heffects := Pool.reportEffects hinternal
    exact ⟨heffects.clBalance, heffects.clValidators, htime, hpassed, hfits, hbunker⟩
  · cases hreport

theorem informed_of_submitReportData
    (h : o.submitReportData callees data version env router pool = .ok (o', router', pool')) :
    PoolInformed o.base data o.base.lastProcessingRefSlot env.timestamp pool pool' := by
  simp only [submitReportData, bind_eq_ok, within_eq_ok] at h
  obtain ⟨_, -, _, -, _, -, ⟨base, prevRefSlot⟩, hstart, h⟩ := h
  simp only [BaseOracle.startProcessing, bind_eq_ok, require_eq_ok, pure_eq_ok,
    Prod.mk.injEq] at hstart
  obtain ⟨_, -, _, -, _, -, rfl, rfl⟩ := hstart
  simp only [handleConsensusReportData, bind_eq_ok, pure_eq_ok, Prod.mk.injEq] at h
  obtain ⟨_, -, _, -, _, -, _, -, _, -, _, -, pool₁, hreport, _, -, -, -, rfl⟩ := h
  have hinformed := informed_of_reportToPool hreport
  exact ⟨hinformed.clBalance, hinformed.clValidators, hinformed.lastReportTimestamp,
    hinformed.passed, hinformed.fits, hinformed.bunkerModeSinceTimestamp⟩

end AccountingOracle

/-! ## The whole system -/

namespace RecordedSystem

variable {x y : RecordedSystem}

/-- Slots are always at the same time, and time does not go back. -/
theorem Step.onward (h : Step x y) :
    y.system.processor.timeOf = x.system.processor.timeOf ∧ x.now ≤ y.now := by
  cases h with
  | call hcall hds =>
    obtain ⟨report, hkept⟩ := hds.kept
    refine ⟨?_, Nat.le_refl _⟩
    rw [hkept]
    rfl
  | clock hclock => exact ⟨by rw [hclock.reframed.processor], hclock.le⟩
  | setup hsetup =>
    refine ⟨?_, Nat.le_refl _⟩
    rw [ConsensusSystem.processor_withProcessor]
    cases hsetup with
    | initializeOracle hp =>
      obtain ⟨-, -, rfl⟩ := BaseOracle.initializeOracle_ok_cases hp
      rfl
    | setConsensusVersion hp =>
      obtain rfl := BaseOracle.setConsensusVersion_ok_cases hp
      rfl
  | process _ hstart =>
    obtain ⟨-, rfl⟩ := BaseOracle.startProcessing_ok_cases hstart
    rw [ConsensusSystem.processor_withProcessor]
    exact ⟨rfl, Nat.le_refl _⟩

/-- Without a report that is processed, an initialized oracle stays where it is. -/
theorem Step.lastProcessingRefSlot_eq (h : Step x y)
    (hslots : processedSlots y.history = processedSlots x.history)
    (hversion : x.system.processor.contractVersion ≠ 0) :
    y.system.processor.lastProcessingRefSlot = x.system.processor.lastProcessingRefSlot := by
  cases h with
  | call hcall hds =>
    obtain ⟨report, hkept⟩ := hds.kept
    rw [hkept]
  | clock hclock => rw [hclock.reframed.processor]
  | setup hsetup =>
    rw [ConsensusSystem.processor_withProcessor]
    cases hsetup with
    | initializeOracle hp =>
      obtain ⟨hzero, -, -⟩ := BaseOracle.initializeOracle_ok_cases hp
      exact absurd hzero hversion
    | setConsensusVersion hp =>
      obtain rfl := BaseOracle.setConsensusVersion_ok_cases hp
      rfl
  | process _ _ =>
    simp only [processedSlots_append_processed] at hslots
    exact absurd hslots (by simp)

end RecordedSystem

/-- The committee with its oracle, and the contracts that the oracle reports to. -/
structure ReportingSystem (ρ : Type) where
  committee : RecordedSystem
  extraData : ExtraDataProcessingState
  router : ρ
  pool : Pool

inductive ReportingAction where
  | committee
  | submitReportData (env : AccountingReportEnv) (data : AccountingReportData)
      (contractVersion : Nat)
  | submitReportExtraData
  | pool (action : Action)
  | requests (action : QueueAction)
  | others

/-- The data of a report. -/
def ReportingAction.reported : ReportingAction → Option AccountingReportData
  | .submitReportData _ data _ => some data
  | _ => none

theorem ReportingAction.exists_of_reported (action : ReportingAction) {data : AccountingReportData}
    (h : action.reported = some data) :
    ∃ env version, action = .submitReportData env data version := by
  cases action with
  | submitReportData env data' version =>
    cases h
    exact ⟨env, version, rfl⟩
  | committee => cases h
  | submitReportExtraData => cases h
  | pool => cases h
  | requests => cases h
  | others => cases h

namespace ReportingSystem

variable {ρ : Type} {callees : AccountingCallees ρ} {x x' : ReportingSystem ρ}
  {action : ReportingAction}

/-- The oracle is the processor of the consensus contract. -/
def oracle (x : ReportingSystem ρ) : AccountingOracle where
  base := x.committee.system.processor
  extraData := x.extraData

/-- After the deployment; the withdrawal queue is initialized out of bunker mode. -/
def Deployed (x : ReportingSystem ρ) : Prop :=
  RecordedSystem.Deployed x.committee ∧ Pool.Initial x.pool ∧
    x.pool.bunkerModeSinceTimestamp = BUNKER_MODE_DISABLED_TIMESTAMP

/-- The calls that go through. The oracle alone may report to the pool and to the queue. -/
inductive Performs (callees : AccountingCallees ρ) :
    ReportingSystem ρ → ReportingAction → ReportingSystem ρ → Prop where
  /-- Members report and change, time passes; no data is processed. -/
  | committee {x : ReportingSystem ρ} {committee : RecordedSystem} :
      RecordedSystem.Step x.committee committee →
      processedSlots committee.history = processedSlots x.committee.history →
      Performs callees x .committee { x with committee := committee }
  | submitReportData {x : ReportingSystem ρ} {env : AccountingReportEnv}
      {data : AccountingReportData} {contractVersion : Nat} {oracle : AccountingOracle} {router : ρ}
      {pool : Pool} :
      env.timestamp = x.committee.now →
      x.oracle.submitReportData callees.report data contractVersion env x.router x.pool
        = .ok (oracle, router, pool) →
      Performs callees x (.submitReportData env data contractVersion)
        { committee := {
            system := x.committee.system.withProcessor oracle.base
            now := x.committee.now
            history := x.committee.history ++
              [.processed (env.hashOf data) data.refSlot x.committee.now] }
          extraData := oracle.extraData
          router := router
          pool := pool }
  | submitReportExtraDataEmpty {x : ReportingSystem ρ} {env : AccountingEnv}
      {oracle : AccountingOracle} {router : ρ} :
      env.timestamp = x.committee.now →
      x.oracle.submitReportExtraDataEmpty callees.extraData env x.router = .ok (oracle, router) →
      Performs callees x .submitReportExtraData
        { x with extraData := oracle.extraData, router := router }
  | submitReportExtraDataList {x : ReportingSystem ρ} {env : AccountingEnv}
      {items : ByteBuffer.CalldataBytes} {rounds : Nat} {oracle : AccountingOracle} {router : ρ} :
      env.timestamp = x.committee.now →
      x.oracle.submitReportExtraDataList callees.extraData items env rounds x.router
        = some (.ok (oracle, router)) →
      Performs callees x .submitReportExtraData
        { x with extraData := oracle.extraData, router := router }
  | pool {x : ReportingSystem ρ} {action : Action} {pool : Pool} :
      (∀ env data distribution, action = .handleOracleReport env data distribution →
        env.sender ≠ x.pool.locator.accountingOracle) →
      action.run x.pool = .ok pool → Performs callees x (.pool action) { x with pool := pool }
  | requests {x : ReportingSystem ρ} {action : QueueAction} {queue : WithdrawalQueue} :
      action ≠ .other → WithdrawalQueue.Performs x.pool.queue action queue →
      Performs callees x (.requests action) { x with pool := { x.pool with queue := queue } }
  /-- Pauses, limits and roles, wrapping and permits, and ace that is received. -/
  | others {x : ReportingSystem ρ} {router : ρ} {token : BACE} {stakeLimit : StakeLimitState}
      {totalELRewardsCollected balance elRewardsVaultBalance withdrawalVaultBalance : Nat}
      {burner : Burner} {wbACE : WbACE} {limits : LimitsList}
      {resumeSinceTimestamp queueBalance : Nat} {hasRole : QueueRole → Address → Bool} :
      Performs callees x .others { x with
        router := router
        pool := { x.pool with
          token := token
          stakeLimit := stakeLimit
          totalELRewardsCollected := totalELRewardsCollected
          balance := balance
          elRewardsVaultBalance := elRewardsVaultBalance
          withdrawalVaultBalance := withdrawalVaultBalance
          burner := burner
          wbACE := wbACE
          limits := limits
          queue := { x.pool.queue with
            resumeSinceTimestamp := resumeSinceTimestamp
            balance := queueBalance
            hasRole := hasRole } } }

theorem Performs.committee_step (h : Performs callees x action x') :
    x'.committee = x.committee ∨ RecordedSystem.Step x.committee x'.committee := by
  cases h with
  | committee hstep _ => exact .inr hstep
  | @submitReportData env _ _ _ _ _ htime hsubmit =>
    have hstep : RecordedSystem.Step
        ⟨x.committee.system, env.timestamp, x.committee.history⟩ ⟨_, _, _⟩ :=
      AccountingOracle.step_of_submitReportData callees.report rfl hsubmit
    rw [htime] at hstep
    exact .inr hstep
  | submitReportExtraDataEmpty _ _ => exact .inl rfl
  | submitReportExtraDataList _ _ => exact .inl rfl
  | pool _ _ => exact .inl rfl
  | requests _ _ => exact .inl rfl
  | others => exact .inl rfl

/-- Only a report changes what the pool knows from reports. -/
theorem Performs.unreported (h : Performs callees x action x') (hnone : action.reported = none) :
    x.pool.Unreported x'.pool := by
  cases h with
  | committee _ _ => exact .refl _
  | submitReportData _ _ => cases hnone
  | submitReportExtraDataEmpty _ _ => exact .refl _
  | submitReportExtraDataList _ _ => exact .refl _
  | pool hother hrun => exact Action.unreported hother hrun
  | requests hother hrun => exact ⟨rfl, rfl, rfl, hrun.lastReportTimestamp_eq hother⟩
  | others => exact ⟨rfl, rfl, rfl, rfl⟩

/-! ## Histories -/

abbrev ReportingMoment (ρ : Type) := Moment (ReportingSystem ρ) ReportingAction

/-- The slots that were reported to the pool. -/
def reportedSlots (history : List (ReportingMoment ρ)) : List Nat :=
  history.filterMap fun m => m.action.reported.map AccountingReportData.refSlot

variable {w : Recorded (ReportingSystem ρ) ReportingAction} {m : ReportingMoment ρ}

theorem reachable_committee
    (h : Reachable (Recorded.Starts Deployed) (Recorded.Acts (Performs callees)) w) :
    Reachable RecordedSystem.Deployed RecordedSystem.Step w.state.committee := by
  induction h with
  | init hstarts => exact .init hstarts.1.1
  | step _ hs ih =>
    obtain ⟨hperforms⟩ := hs
    rcases hperforms.committee_step with heq | hstep
    · exact heq ▸ ih
    · exact ih.step hstep

/-- Every report that the oracle processes reaches the pool. -/
theorem processedSlots_eq
    (h : Reachable (Recorded.Starts Deployed) (Recorded.Acts (Performs callees)) w) :
    processedSlots w.state.committee.history = reportedSlots w.history := by
  induction h with
  | init hstarts =>
    rw [hstarts.1.1.2, hstarts.2]
    rfl
  | step _ hs ih =>
    obtain ⟨hperforms⟩ := hs
    unfold reportedSlots at ih ⊢
    rw [Recorded.record, List.filterMap_append, ← ih]
    cases hperforms with
    | committee _ hslots => exact hslots.trans (List.append_nil _).symm
    | submitReportData _ _ => exact processedSlots_append_processed _ _ _ _
    | submitReportExtraDataEmpty _ _ => exact (List.append_nil _).symm
    | submitReportExtraDataList _ _ => exact (List.append_nil _).symm
    | pool _ _ => exact (List.append_nil _).symm
    | requests _ _ => exact (List.append_nil _).symm
    | others => exact (List.append_nil _).symm

/-- The hash of the data is the one that was submitted for its slot. -/
structure Agreed (x : ReportingSystem ρ) (env : AccountingReportEnv) (data : AccountingReportData) :
    Prop where
  /-- A quorum stood behind a submission. -/
  backed : ∃ e ∈ x.committee.system.submissions,
    e.report = env.hashOf data ∧ e.refSlot = data.refSlot ∧ Backed e
  /-- Nothing else was submitted for the slot since, and nothing discarded. -/
  standing : ∃ deadline, lastReport x.committee.history data.refSlot
    = some (.delivered (.submitted (env.hashOf data) data.refSlot deadline))

theorem agreed_of_submitReportData {env : AccountingReportEnv} {data : AccountingReportData}
    {version : Nat} {result : AccountingOracle × ρ × Pool}
    (hreach : Reachable RecordedSystem.Deployed RecordedSystem.Step x.committee)
    (h : x.oracle.submitReportData callees.report data version env x.router x.pool = .ok result) :
    x.Agreed env data := by
  have hattached := RecordedSystem.reachable_attached hreach
  have hagreement : ConsensusSystem.Agreement x.committee.system x.committee.now :=
    ConsensusSystem.agreement_of_reachable hattached
  obtain ⟨hhash, hslot, hne, -⟩ := AccountingOracle.submitReportData_ok_cases h
  obtain ⟨e, he, hreport, hrefSlot⟩ := ConsensusSystem.filed_of_reachable hattached hne
  have hstored := (RecordedSystem.kept_of_reachable hreach).remembers.stored hne
  refine ⟨⟨e, he, hreport.trans hhash, hrefSlot.trans hslot, hagreement.inv.backed e he⟩,
    x.oracle.base.consensusReport.processingDeadlineTime, ?_⟩
  rw [← hhash, ← hslot]
  exact hstored

/-- The pool, the queue and the oracle are where the report left them. -/
structure Follows (x : ReportingSystem ρ) (data : AccountingReportData) : Prop where
  clBalance : x.pool.clBalance = data.clBalanceGwei * 10 ^ 9
  clValidators : x.pool.clValidators = data.numValidators
  lastProcessingRefSlot : x.committee.system.processor.lastProcessingRefSlot = data.refSlot
  lastReportTimestamp :
    x.pool.queue.lastReportTimestamp = x.committee.system.processor.timeOf data.refSlot
  passed : x.pool.queue.lastReportTimestamp < x.committee.now
  isBunkerModeActive : x.pool.isBunkerModeActive = data.isBunkerMode

variable {env : AccountingReportEnv} {data : AccountingReportData} {version : Nat}

/-- The time that bunker mode starts at is none that means it is off. -/
theorem isBunkerModeActive_of_informed {p : BaseOracle} {prevRefSlot now : Nat} {pool pool' : Pool}
    (h : PoolInformed p data prevRefSlot now pool pool') (hseconds : 0 < p.secondsPerSlot)
    (hprev : prevRefSlot < data.refSlot) : pool'.isBunkerModeActive = data.isBunkerMode := by
  have hstart : p.timeOf prevRefSlot < BUNKER_MODE_DISABLED_TIMESTAMP := by
    have hslots : prevRefSlot * p.secondsPerSlot < data.refSlot * p.secondsPerSlot :=
      Nat.mul_lt_mul_of_pos_right hprev hseconds
    have hfits := h.fits
    unfold BaseOracle.timeOf BUNKER_MODE_DISABLED_TIMESTAMP at *
    omega
  have hsince := h.bunkerModeSinceTimestamp
  by_cases hsame : data.isBunkerMode = pool.isBunkerModeActive
  · rw [if_pos hsame] at hsince
    rw [hsame]
    unfold Pool.isBunkerModeActive
    rw [hsince]
  · rw [if_neg hsame] at hsince
    unfold Pool.isBunkerModeActive
    rw [hsince]
    cases data.isBunkerMode with
    | true => exact decide_eq_true hstart
    | false => exact decide_eq_false (Nat.lt_irrefl _)

/-- What the step of a report does. -/
theorem informed_of_performs
    (hreach : Reachable RecordedSystem.Deployed RecordedSystem.Step x.committee)
    (h : Performs callees x (.submitReportData env data version) x') :
    PoolInformed x.committee.system.processor data
      x.committee.system.processor.lastProcessingRefSlot x.committee.now x.pool x'.pool ∧
    x'.Follows data := by
  have hattached := RecordedSystem.reachable_attached hreach
  have hagreement : ConsensusSystem.Agreement x.committee.system x.committee.now :=
    ConsensusSystem.agreement_of_reachable hattached
  have hseconds := ConsensusSystem.secondsPerSlot_pos_of_reachable hattached
  cases h with
  | submitReportData htime hsubmit =>
    have hinformed := AccountingOracle.informed_of_submitReportData hsubmit
    rw [htime] at hinformed
    obtain ⟨-, hslot, -, hne, -, rfl⟩ := AccountingOracle.submitReportData_ok_cases hsubmit
    have hprev : x.committee.system.processor.lastProcessingRefSlot < data.refSlot :=
      Nat.lt_of_le_of_ne (hslot ▸ hagreement.processing_le) hne
    refine ⟨hinformed, hinformed.clBalance, hinformed.clValidators, ?_, ?_, ?_,
      isBunkerModeActive_of_informed hinformed hseconds hprev⟩
    · simp only [ConsensusSystem.processor_withProcessor]
    · simp only [ConsensusSystem.processor_withProcessor]
      exact hinformed.lastReportTimestamp
    · exact hinformed.lastReportTimestamp ▸ hinformed.passed

/-- Other calls change nothing of it. -/
theorem Follows.step (h : x.Follows data) (hperforms : Performs callees x action x')
    (hnone : action.reported = none)
    (hversion : x.committee.system.processor.contractVersion ≠ 0) : x'.Follows data := by
  have hunreported := hperforms.unreported hnone
  have horacle : x'.committee.system.processor.timeOf = x.committee.system.processor.timeOf ∧
      x.committee.now ≤ x'.committee.now ∧
      x'.committee.system.processor.lastProcessingRefSlot
        = x.committee.system.processor.lastProcessingRefSlot := by
    cases hperforms with
    | committee hstep hslots =>
      obtain ⟨htime, hnow⟩ := hstep.onward
      exact ⟨htime, hnow, hstep.lastProcessingRefSlot_eq hslots hversion⟩
    | submitReportData _ _ => cases hnone
    | submitReportExtraDataEmpty _ _ => exact ⟨rfl, Nat.le_refl _, rfl⟩
    | submitReportExtraDataList _ _ => exact ⟨rfl, Nat.le_refl _, rfl⟩
    | pool _ _ => exact ⟨rfl, Nat.le_refl _, rfl⟩
    | requests _ _ => exact ⟨rfl, Nat.le_refl _, rfl⟩
    | others => exact ⟨rfl, Nat.le_refl _, rfl⟩
  obtain ⟨htime, hnow, hslot⟩ := horacle
  exact {
    clBalance := hunreported.clBalance.trans h.clBalance
    clValidators := hunreported.clValidators.trans h.clValidators
    lastProcessingRefSlot := hslot.trans h.lastProcessingRefSlot
    lastReportTimestamp := by
      rw [hunreported.lastReportTimestamp, htime]
      exact h.lastReportTimestamp
    passed := by
      rw [hunreported.lastReportTimestamp]
      exact h.passed.trans_le hnow
    isBunkerModeActive := hunreported.isBunkerModeActive.trans h.isBunkerModeActive }

/-- An oracle that has reported is initialized. -/
theorem contractVersion_ne_of_reported
    (h : Reachable (Recorded.Starts Deployed) (Recorded.Acts (Performs callees)) w)
    (hm : m ∈ w.history) (hreported : m.action.reported = some data) :
    w.state.committee.system.processor.contractVersion ≠ 0 := by
  intro hzero
  have hblank := (RecordedSystem.kept_of_reachable (reachable_committee h)).blank hzero
  have hslots := processedSlots_eq h
  rw [hblank] at hslots
  have hmem : data.refSlot ∈ reportedSlots w.history :=
    List.mem_filterMap.mpr ⟨m, hm, by rw [hreported]; rfl⟩
  rw [← hslots] at hmem
  exact absurd hmem List.not_mem_nil

/-- A report that turns bunker mode on, from the time of the slot that was processed before. -/
def Opens (since : Nat) (m : ReportingMoment ρ) : Prop :=
  ∃ env data version, m.action = .submitReportData env data version ∧ data.isBunkerMode = true ∧
    m.before.pool.isBunkerModeActive = false ∧
    since = m.before.committee.system.processor.timeOf
      m.before.committee.system.processor.lastProcessingRefSlot

/-- Neither a report that turns bunker mode off nor a deposit to the beacon chain. -/
def Stays (m : ReportingMoment ρ) : Prop :=
  (∀ data, m.action.reported = some data → data.isBunkerMode = true) ∧
    ∀ env maxDepositsCount getStakingModuleMaxDepositsCount,
      m.action ≠ .pool (.deposit env maxDepositsCount getStakingModuleMaxDepositsCount)

/-- There are no deposits in bunker mode. -/
theorem not_active_of_deposit {env : Env} {maxDepositsCount : Nat} {f : Nat → Nat}
    (h : Performs callees x (.pool (.deposit env maxDepositsCount f)) x') :
    x.pool.isBunkerModeActive = false := by
  cases h with
  | pool _ hrun =>
    simp only [Action.run, Pool.deposit, Pool.canDeposit, bind_eq_ok, require_eq_ok,
      Bool.and_eq_true, Bool.not_eq_true'] at hrun
    obtain ⟨_, -, _, ⟨hactive, -⟩, -⟩ := hrun
    exact hactive

def exampleBunkerCallees : AccountingCallees (List RouterCall) :=
  AccountingSystem.exampleAccountingCallees

def exampleBunkerData : AccountingReportData :=
  { AccountingSystem.exampleMainData with isBunkerMode := true }

def exampleBunkerEnv : AccountingReportEnv :=
  { AccountingSystem.exampleMainEnv with hashOf := fun _ => 5 }

/-- The system with a committee of its own, before the first report. -/
def exampleBefore (committee : RecordedSystem) : ReportingSystem (List RouterCall) :=
  ⟨committee, ⟨0, 0, false, 0, 0, 0, ZERO_HASH⟩, [], Pool.exampleStart⟩

theorem exists_exampleRun : ∃ committee history,
    Reachable (Recorded.Starts Deployed) (Recorded.Acts (Performs exampleBunkerCallees))
      ⟨exampleBefore committee, history⟩ ∧
    committee.system = ConsensusSystem.exampleReported ∧ committee.now = 384 ∧
    reportedSlots history = [] := by
  have h₀ : Reachable (Recorded.Starts Deployed) (Recorded.Acts (Performs exampleBunkerCallees))
      ⟨exampleBefore ⟨ConsensusSystem.exampleDeployment, 1, []⟩, []⟩ :=
    .init ⟨⟨⟨ConsensusSystem.deployed_exampleDeployment, rfl⟩, Pool.initial_exampleStart,
      by decide +kernel⟩, rfl⟩
  have h₁ := h₀.step (.act (.committee (.clock (.configure
    (@ConsensusSystem.ConfigCall.updateInitialEpoch
      (ConsensusSystem.exampleEnv 1 1 Nat.one_pos) _ _ 1 (eq_ok_result _ (by decide +kernel)))
    (by decide +kernel))) rfl))
  have h₂ := h₁.step (.act (.committee (.clock (.configure
    (@ConsensusSystem.ConfigCall.setRoles
      (ConsensusSystem.exampleEnv 1 1 Nat.one_pos) _ fun _ _ => true) (by decide +kernel))) rfl))
  have h₃ := h₂.step (.act (.committee (.setup (@ConsensusSystem.SetupCall.initializeOracle _ _ 1 0
    (eq_ok_result _ (by decide +kernel)))) rfl))
  have h₄ := h₃.step (.act (.committee (@RecordedSystem.Step.call _
    ConsensusSystem.exampleMember (ConsensusSystem.exampleEnv 1 1 Nat.one_pos) _ []
    (@ConsensusSystem.ContractCall.addMember _ _ _ 3 1 (eq_ok_result _ (by decide +kernel)))
    (.none (by decide +kernel))) rfl))
  have h₅ := h₄.step (.act (.committee (.clock (@ConsensusSystem.ClockStep.tick _ _ _ 384
    (by decide) (by decide +kernel))) rfl))
  have h₆ := h₅.step (.act (.committee (@RecordedSystem.Step.call _
    ConsensusSystem.exampleReported
    (ConsensusSystem.exampleEnv 3 384 ConsensusSystem.exampleReportTime_pos) _
    [.submitted 5 31 756]
    (@ConsensusSystem.ContractCall.submitReport _ _ _ 31 1 5 (eq_ok_result _ (by decide +kernel)))
    (.one (by decide +kernel))) rfl))
  exact ⟨_, _, h₆, rfl, rfl, rfl⟩

def exampleBunkerReport : AccountingOracle × List RouterCall × Pool :=
  result (AccountingOracle.submitReportData exampleBunkerCallees.report
    ⟨ConsensusSystem.exampleReported.processor, ⟨0, 0, false, 0, 0, 0, ZERO_HASH⟩⟩
    exampleBunkerData 1 exampleBunkerEnv [] Pool.exampleStart) (by decide +kernel)

/-- The member's report is processed. -/
theorem exists_exampleBunkerRun :
    ∃ (w : Recorded (ReportingSystem (List RouterCall)) ReportingAction)
      (m : ReportingMoment (List RouterCall)),
      Reachable (Recorded.Starts Deployed) (Recorded.Acts (Performs exampleBunkerCallees)) w ∧
      reportedSlots w.history = [31] ∧ m ∈ w.history ∧
      m.action = .submitReportData exampleBunkerEnv exampleBunkerData 1 ∧
      w.state.Follows exampleBunkerData := by
  obtain ⟨⟨s, now, events⟩, history, hrun, hsystem, hnow, hslots⟩ := exists_exampleRun
  obtain rfl : s = ConsensusSystem.exampleReported := hsystem
  obtain rfl : now = 384 := hnow
  have hok : AccountingOracle.submitReportData exampleBunkerCallees.report
      ⟨ConsensusSystem.exampleReported.processor, ⟨0, 0, false, 0, 0, 0, ZERO_HASH⟩⟩
      exampleBunkerData 1 exampleBunkerEnv [] Pool.exampleStart = .ok exampleBunkerReport :=
    eq_ok_result _ (by decide +kernel)
  have hreport : Performs exampleBunkerCallees
      (exampleBefore ⟨ConsensusSystem.exampleReported, 384, events⟩)
      (.submitReportData exampleBunkerEnv exampleBunkerData 1) _ :=
    .submitReportData rfl hok
  obtain ⟨-, hfollows⟩ := informed_of_performs (reachable_committee hrun) hreport
  refine ⟨_, _, hrun.step (.act hreport), ?_, List.mem_append_right _ (List.mem_singleton_self _),
    rfl, hfollows⟩
  rw [reportedSlots] at hslots ⊢
  rw [Recorded.record, List.filterMap_append, hslots]
  rfl

end ReportingSystem

end Catalist
