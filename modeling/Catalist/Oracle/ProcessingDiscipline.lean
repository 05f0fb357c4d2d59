import Catalist.Oracle.AccountingReport
import Catalist.Pool.ReportErrors

/-!
# The discipline of processing reports

A report that can be processed is for a slot after the one processed before, and the time of its
slot is over. So the accounting oracle divides by a positive number of slots, and neither the
withdrawal queue nor the pool finds fault with the time of the report.
-/

namespace Catalist

open Solidity HashConsensus Transition

namespace HashConsensus

variable {chain : ChainConfig} {config : FrameConfig} {timestamp slot : Nat}

/-- From the initial epoch on, the time of the reference slot is over. -/
theorem time_lt_of_le_refSlotAt (h : config.initialEpoch ≤ epochAt chain timestamp)
    (hpos : 0 < slot) (hle : slot ≤ refSlotAt chain config timestamp) :
    chain.genesisTime + slot * chain.secondsPerSlot < timestamp := by
  have hslot : slot + 1 ≤ slotAt chain timestamp :=
    calc slot + 1 ≤ frameStartEpochAt chain config timestamp * chain.slotsPerEpoch := by
          unfold refSlotAt at hle
          omega
      _ ≤ epochAt chain timestamp * chain.slotsPerEpoch :=
          Nat.mul_le_mul_right _ (frameStartEpochAt_le h)
      _ ≤ slotAt chain timestamp := Nat.div_mul_le_self _ _
  have helapsed : (slot + 1) * chain.secondsPerSlot ≤ timestamp - chain.genesisTime :=
    (Nat.mul_le_mul_right _ hslot).trans (Nat.div_mul_le_self _ _)
  have hsecond := chain.secondsPerSlot_pos
  rw [Nat.add_mul, Nat.one_mul] at helapsed
  omega

end HashConsensus

namespace ConsensusSystem

variable {s : ConsensusSystem} {env : Env} {p : BaseOracle} {prev : Nat}

/-- What `_startProcessing` lets through in a reachable state. -/
theorem startProcessing_in_past (h : Reachable Deployed AttachedStep (s, env.timestamp))
    (hstart : s.processor.startProcessing env = .ok (p, prev)) :
    prev < s.processor.consensusReport.refSlot ∧
    s.processor.genesisTime + s.processor.consensusReport.refSlot * s.processor.secondsPerSlot
      < env.timestamp := by
  have hagreement : Agreement s env.timestamp := agreement_of_reachable h
  have hpaired : Paired s := paired_of_reachable h
  simp only [BaseOracle.startProcessing, bind_eq_ok, require_eq_ok, pure_eq_ok,
    Prod.mk.injEq] at hstart
  obtain ⟨_, hhash, _, -, _, hne, -, rfl⟩ := hstart
  have hlt : s.processor.lastProcessingRefSlot < s.processor.consensusReport.refSlot :=
    Nat.lt_of_le_of_ne hagreement.processing_le hne
  have hinitial : s.consensus.frameConfig.initialEpoch
      ≤ epochAt s.consensus.chain env.timestamp := by
    by_contra hearly
    exact hhash (hagreement.early (Nat.lt_of_not_le hearly)).1
  refine ⟨hlt, ?_⟩
  rw [hpaired.secondsPerSlot, hpaired.genesisTime]
  exact time_lt_of_le_refSlotAt hinitial (Nat.zero_lt_of_lt hlt) hagreement.report_le

theorem secondsPerSlot_pos_of_reachable {now : Nat} (h : Reachable Deployed AttachedStep (s, now)) :
    0 < s.processor.secondsPerSlot := by
  have hpaired : Paired s := paired_of_reachable h
  rw [hpaired.secondsPerSlot]
  exact s.consensus.chain.secondsPerSlot_pos

end ConsensusSystem

/-! ## The main report -/

/-- An error of the withdrawal queue or the pool. -/
def AccountingReportError.nested : AccountingReportError → Bool
  | .queue _ => true
  | .pool _ => true
  | _ => false

/-- A revert that has nothing to do with the order of reports or their times. -/
def Punctual : Revert AccountingReportError → Prop
  | .panic p => p ≠ .divisionByZero ∧ p ≠ .underflow
  | .error (.queue e) => e ≠ .invalidReportTimestamp
  | .error (.pool r) => Untimed r
  | .error _ => True

theorem punctual_of_own {e : AccountingReportError} (h : e.nested = false) :
    Punctual (.error e) := by
  cases e with
  | queue e => cases h
  | pool r => cases h
  | _ => trivial

namespace AccountingOracle

theorem punctual_overflow : Punctual (.panic .overflow) := ⟨nofun, nofun⟩

theorem ensures_external {α : Type} (x : Option α) : Ensures Punctual (external x) fun _ => True := by
  cases x with
  | some a => exact ensures_ok trivial
  | none => exact ensures_error trivial

theorem ensures_externalPool {α : Type} {x : Call PoolError α} (h : Ensures Untimed x fun _ => True) :
    Ensures Punctual (externalPool x) fun _ => True := by
  cases x with
  | ok a => exact ensures_ok trivial
  | error r => exact ensures_error (h.of_error rfl)

theorem ensures_guard {c : Prop} [Decidable c] {e : AccountingReportError}
    (h : e.nested = false) : Ensures Punctual (require c e) fun _ => True :=
  Ensures.mono (ensures_require (punctual_of_own h)) fun _ _ => trivial

theorem ensures_timestampAtSlot (p : BaseOracle) (slot : Nat) :
    Ensures Punctual (timestampAtSlot p slot)
      fun timestamp => timestamp = p.genesisTime + slot * p.secondsPerSlot := by
  refine (ensures_checkedMul punctual_overflow).bind fun elapsed helapsed => ?_
  rw [← helapsed]
  exact ensures_checkedAdd punctual_overflow

theorem ensures_checkReportExtraData (data : AccountingReportData) :
    Ensures Punctual (checkReportExtraData data) fun _ => True := by
  unfold checkReportExtraData
  split
  · exact (ensures_guard rfl).bind fun _ _ => ensures_guard rfl
  · refine (ensures_guard rfl).bind fun _ _ => ?_
    exact (ensures_guard rfl).bind fun _ _ => ensures_guard rfl

theorem ensures_toUint16 (n : Nat) : Ensures Punctual (toUint16 n) fun _ => True :=
  (ensures_guard rfl).bind fun _ _ => ensures_pure trivial

/-- The reverts of the oracle's own checks are errors, not panics. -/
theorem punctual_of_error {ε : Type} {f : ε → AccountingError} (r : Revert ε)
    (h : ∃ e, r = .error e) : Punctual (r.map (.accounting ∘ f)) := by
  obtain ⟨e, rfl⟩ := h
  trivial

theorem ensures_oracle {α : Type} {x : Call OracleError α}
    (h : Ensures (fun r => ∃ e, r = .error e) x fun _ => True) :
    Ensures Punctual (within (.accounting ∘ .oracle) x) fun _ => True :=
  h.within punctual_of_error

theorem ensures_toUint64 (n : Nat) :
    Ensures (fun r => ∃ e, r = .error e) (toUint64 n) fun _ => True :=
  (ensures_require ⟨_, rfl⟩).bind fun _ _ => ensures_pure trivial

theorem ensures_checkContractVersion (p : BaseOracle) (version : Nat) :
    Ensures (fun r => ∃ e, r = .error e) (p.checkContractVersion version) fun _ => True :=
  (ensures_require ⟨_, rfl⟩).mono fun _ _ => trivial

theorem ensures_checkConsensusData (p : BaseOracle) (refSlot version : Nat) (hash : Hash) :
    Ensures (fun r => ∃ e, r = .error e) (p.checkConsensusData refSlot version hash)
      fun _ => True := by
  refine (ensures_require ⟨_, rfl⟩).bind fun _ _ => ?_
  refine (ensures_require ⟨_, rfl⟩).bind fun _ _ => ?_
  exact (ensures_require ⟨_, rfl⟩).mono fun _ _ => trivial

theorem ensures_startProcessing (p : BaseOracle) (env : Env) :
    Ensures (fun r => ∃ e, r = .error e) (p.startProcessing env) fun _ => True := by
  refine (ensures_require ⟨_, rfl⟩).bind fun _ _ => ?_
  refine (ensures_require ⟨_, rfl⟩).bind fun _ _ => ?_
  exact (ensures_require ⟨_, rfl⟩).bind fun _ _ => ensures_pure trivial

theorem ensures_newProcessingState (data : AccountingReportData) :
    Ensures Punctual (newProcessingState data) fun _ => True := by
  refine (ensures_oracle (ensures_toUint64 _)).bind fun _ _ => ?_
  refine (ensures_toUint16 _).bind fun _ _ => ?_
  exact (ensures_toUint16 _).bind fun _ _ => ensures_pure trivial

/-- The rate is divided by a positive number of seconds. -/
theorem ensures_exitedValidatorsRatePerDay {secondsPerSlot slotsElapsed : Nat}
    (hseconds : 0 < secondsPerSlot) (hslots : 0 < slotsElapsed) (count : Nat) :
    Ensures Punctual (exitedValidatorsRatePerDay secondsPerSlot count slotsElapsed)
      fun _ => True := by
  refine (ensures_checkedMul punctual_overflow).bind fun perDay _ => ?_
  refine (ensures_checkedMul punctual_overflow).bind fun secondsElapsed hsecondsElapsed => ?_
  have hpos : 0 < secondsElapsed := by
    rw [hsecondsElapsed]
    exact Nat.mul_pos hseconds hslots
  exact (ensures_checkedDiv hpos.ne').mono fun _ _ => trivial

theorem ensures_processStakingRouterExitedValidatorsByModule {ρ : Type} (callees : ReportCallees ρ)
    {secondsPerSlot slotsElapsed : Nat} (hseconds : 0 < secondsPerSlot) (hslots : 0 < slotsElapsed)
    (ids counts : List Nat) (router : ρ) :
    Ensures Punctual (processStakingRouterExitedValidatorsByModule callees secondsPerSlot ids counts
      slotsElapsed router) fun _ => True := by
  refine (ensures_guard rfl).bind fun _ _ => ?_
  split
  · exact ensures_pure trivial
  · refine (ensures_guard rfl).bind fun _ _ => ?_
    refine (ensures_guard rfl).bind fun _ _ => ?_
    refine (ensures_external _).bind fun loaded _ => ?_
    obtain ⟨count, router⟩ := loaded
    refine (ensures_exitedValidatorsRatePerDay hseconds hslots count).bind fun _ _ => ?_
    exact (ensures_external _).bind fun _ _ => ensures_pure trivial

/-- The queue accepts a report whose times have passed. -/
theorem ensures_onOracleReport (pool : Pool) (env : Env) (hasOracleRole : Address → Bool)
    (isBunkerMode : Bool) {bunkerStart current : Nat} (hstart : bunkerStart < env.timestamp)
    (hcurrent : current < env.timestamp) :
    Ensures Punctual (within .queue (pool.onOracleReport env hasOracleRole isBunkerMode bunkerStart
      current)) fun _ => True := by
  unfold Pool.onOracleReport
  rw [require_of hstart, require_of hcurrent]
  unfold require
  split
  · simp only [ok_bind]
    split
    · exact ensures_ok trivial
    · exact ensures_ok trivial
  · exact ensures_error nofun

variable {ρ : Type} (callees : ReportCallees ρ) {o : AccountingOracle} {data : AccountingReportData}
  {prevRefSlot : Nat} {env : AccountingReportEnv}

theorem ensures_reportToPool (slotsElapsed : Nat) (distribution : StakingRewardsDistribution)
    (pool : Pool) (hprev : prevRefSlot < data.refSlot)
    (htime : o.base.genesisTime + data.refSlot * o.base.secondsPerSlot < env.timestamp) :
    Ensures Punctual (o.reportToPool data prevRefSlot slotsElapsed env distribution pool)
      fun _ => True := by
  have hmul : prevRefSlot * o.base.secondsPerSlot ≤ data.refSlot * o.base.secondsPerSlot :=
    Nat.mul_le_mul_right _ hprev.le
  refine (ensures_timestampAtSlot o.base prevRefSlot).bind fun bunkerStart hbunkerStart => ?_
  refine (ensures_timestampAtSlot o.base data.refSlot).bind fun current hcurrent => ?_
  refine (ensures_onOracleReport pool _ env.hasOracleRole data.isBunkerMode ?_ ?_).bind
    fun pool _ => ?_
  · show bunkerStart < env.timestamp
    omega
  · show current < env.timestamp
    omega
  · refine (ensures_timestampAtSlot o.base data.refSlot).bind fun time htimestamp => ?_
    refine (ensures_checkedMul punctual_overflow).bind fun _ _ => ?_
    refine (ensures_checkedMul punctual_overflow).bind fun _ _ => ?_
    refine (ensures_externalPool (pool.ensures_handleOracleReport _ _ distribution ?_)).bind
      fun _ _ => ensures_pure trivial
    show time ≤ env.timestamp
    omega

theorem ensures_handleConsensusReportData (router : ρ) (pool : Pool)
    (hseconds : 0 < o.base.secondsPerSlot) (hprev : prevRefSlot < data.refSlot)
    (htime : o.base.genesisTime + data.refSlot * o.base.secondsPerSlot < env.timestamp) :
    Ensures Punctual (handleConsensusReportData callees o data prevRefSlot env router pool)
      fun _ => True := by
  refine (ensures_checkReportExtraData data).bind fun _ _ => ?_
  refine (ensures_external _).bind fun _ _ => ?_
  refine (ensures_checkedMul punctual_overflow).bind fun _ _ => ?_
  refine (ensures_external _).bind fun router _ => ?_
  refine (ensures_checkedSub hprev.le).bind fun slotsElapsed hslots => ?_
  have hpositive : 0 < slotsElapsed := by omega
  refine (ensures_processStakingRouterExitedValidatorsByModule callees hseconds hpositive _ _
    router).bind fun router _ => ?_
  refine (ensures_reportToPool slotsElapsed _ pool hprev htime).bind fun _ _ => ?_
  exact (ensures_newProcessingState data).bind fun _ _ => ensures_pure trivial

/--
In a reachable state of the oracle and its consensus contract, no submission of data reverts
because of the slots of the reports or their times.
-/
theorem ensures_submitReportData {s : ConsensusSystem}
    (h : Reachable ConsensusSystem.Deployed ConsensusSystem.AttachedStep (s, env.timestamp))
    (hbase : o.base = s.processor) (contractVersion : Nat) (router : ρ) (pool : Pool) :
    Ensures Punctual (submitReportData callees o data contractVersion env router pool)
      fun _ => True := by
  refine Ensures.bind (Ensures.within (ensures_require ⟨_, rfl⟩) punctual_of_error) fun _ _ => ?_
  refine (ensures_oracle (ensures_checkContractVersion _ _)).bind fun _ _ => ?_
  refine (ensures_oracle (ensures_checkConsensusData _ _ _ _)).bind_ok fun _ hcheck => ?_
  refine (ensures_oracle (ensures_startProcessing _ _)).bind_ok fun ⟨base, prevRefSlot⟩ hstart => ?_
  rw [within_eq_ok] at hcheck hstart
  simp only [BaseOracle.checkConsensusData, bind_eq_ok, require_eq_ok] at hcheck
  obtain ⟨_, hrefSlot, -⟩ := hcheck
  obtain ⟨-, hkept⟩ := BaseOracle.startProcessing_ok_cases hstart
  rw [hbase] at hstart hrefSlot
  obtain ⟨hprev, htime⟩ := ConsensusSystem.startProcessing_in_past h hstart
  rw [← hrefSlot] at hprev htime
  have hseconds := ConsensusSystem.secondsPerSlot_pos_of_reachable h
  rw [← hbase] at htime hseconds
  rw [hkept]
  exact ensures_handleConsensusReportData callees router pool hseconds hprev htime

/-- The handling of the data leaves the processor as `_startProcessing` left it. -/
theorem base_of_handleConsensusReportData {o' : AccountingOracle} {router router' : ρ}
    {pool pool' : Pool}
    (h : handleConsensusReportData callees o data prevRefSlot env router pool
      = .ok (o', router', pool')) : o'.base = o.base := by
  simp only [handleConsensusReportData, bind_eq_ok, pure_eq_ok, Prod.mk.injEq] at h
  obtain ⟨_, _, _, _, _, _, _, _, _, _, _, _, _, _, _, _, rfl, -, -⟩ := h
  rfl

/-- An accepted report is processed by the consensus system. -/
theorem step_of_submitReportData {o' : AccountingOracle} {contractVersion : Nat}
    {router router' : ρ} {pool pool' : Pool} {s : ConsensusSystem} {history : List ProcessorEvent}
    (hbase : o.base = s.processor)
    (h : submitReportData callees o data contractVersion env router pool
      = .ok (o', router', pool')) :
    RecordedSystem.Step ⟨s, env.timestamp, history⟩
      ⟨s.withProcessor o'.base, env.timestamp,
        history ++ [.processed (env.hashOf data) data.refSlot env.timestamp]⟩ := by
  simp only [submitReportData, bind_eq_ok, within_eq_ok] at h
  obtain ⟨_, _, _, _, _, hcheck, ⟨base, prevRefSlot⟩, hstart, h⟩ := h
  rw [base_of_handleConsensusReportData callees h]
  rw [hbase] at hcheck hstart
  exact .process hcheck hstart

end AccountingOracle

/-! ## The discipline -/

/-- What the processor reverts with is none of the contract's own reverts. -/
theorem Delivery.not_ownRevert {p : BaseOracle} {env : Env} {d : Delivery} {r : Revert OracleError}
    (h : d.run p env = .error r) : ¬ OwnRevert r := by
  cases d with
  | submitted hash refSlot deadline => exact BaseOracle.submitConsensusReport_eq_error h
  | discarded refSlot => exact BaseOracle.discardConsensusReport_eq_error h

/--
In every run with a fixed processor:

* no call that the consensus contract makes to its processor reverts, at the start of a slot;
* every slot is processed at most once, in order, in time, and with data whose hash is the one
  that was last submitted for the slot and not discarded;
* the accounting oracle processes a report after the one processed before and after the time of
  its slot. No submission of data fails for one of these reasons.
-/
theorem processing_discipline {x : RecordedSystem}
    (h : Reachable RecordedSystem.Deployed RecordedSystem.Step x) :
    (∀ env : Env, env.timestamp = x.now → x.system.processor.contractVersion ≠ 0 →
      AtSlotStart x.system.consensus.chain x.now → x.system.consensus.TimesFit x.now →
      ∀ (call : ConsensusCall) (r : Revert OracleError),
        call.run x.system env = .error r → OwnRevert r ∧
          ∀ (p : BaseOracle) (nested : Env) (d : Delivery), d.run p nested ≠ .error r) ∧
    (processedSlots x.history).Pairwise (· < ·) ∧
    Timely x.history ∧
    (∀ (o : AccountingOracle) (data : AccountingReportData) (env : AccountingReportEnv),
      o.base = x.system.processor → env.timestamp = x.now →
      (∀ (base : BaseOracle) (prevRefSlot : Nat),
        o.base.checkConsensusData data.refSlot data.consensusVersion (env.hashOf data) = .ok () →
        o.base.startProcessing env.toEnv = .ok (base, prevRefSlot) →
        prevRefSlot = o.base.lastProcessingRefSlot ∧ prevRefSlot < data.refSlot ∧
        o.base.genesisTime + data.refSlot * o.base.secondsPerSlot < x.now) ∧
      (∀ (ρ : Type) (callees : ReportCallees ρ) (contractVersion : Nat) (router : ρ) (pool : Pool)
        (r : Revert AccountingReportError),
        o.submitReportData callees data contractVersion env router pool = .error r →
          Punctual r)) := by
  have hattached := RecordedSystem.reachable_attached h
  have hremembers := (RecordedSystem.kept_of_reachable h).remembers
  refine ⟨?_, hremembers.increasing, hremembers.timely, ?_⟩
  · intro env hnow hversion hstart htimes call r hcall
    rw [← hnow] at hattached hstart htimes
    obtain ⟨hreceptive, hhashes⟩ :=
      ConsensusSystem.receptive_of_reachable hattached hversion hstart htimes
    have hown : OwnRevert r := (hreceptive.run hhashes call).of_error hcall
    exact ⟨hown, fun p nested d hd => Delivery.not_ownRevert hd hown⟩
  · intro o data env hbase hnow
    rw [← hnow] at hattached
    refine ⟨?_, ?_⟩
    · intro base prevRefSlot hcheck hstart
      have hprev : prevRefSlot = o.base.lastProcessingRefSlot := by
        simp only [BaseOracle.startProcessing, bind_eq_ok, require_eq_ok, pure_eq_ok,
          Prod.mk.injEq] at hstart
        obtain ⟨_, _, _, _, _, _, _, heq⟩ := hstart
        exact heq.symm
      simp only [BaseOracle.checkConsensusData, bind_eq_ok, require_eq_ok] at hcheck
      obtain ⟨_, hrefSlot, -⟩ := hcheck
      rw [hbase] at hstart
      obtain ⟨hlt, htime⟩ := ConsensusSystem.startProcessing_in_past hattached hstart
      rw [hrefSlot, hbase, ← hnow]
      rw [hbase] at hprev
      exact ⟨hprev, hlt, htime⟩
    · intro ρ callees contractVersion router pool r herror
      exact (AccountingOracle.ensures_submitReportData callees hattached hbase contractVersion
        router pool).of_error herror

/-- A report for slot 31 is submitted by a member and then processed. -/
theorem processing_discipline_one_report : ∃ history : List ProcessorEvent,
    Timely (history ++ [.processed 5 31 384]) ∧
    (processedSlots (history ++ [.processed 5 31 384])).Pairwise (· < ·) ∧
    ∀ (call : ConsensusCall) (r : Revert OracleError),
      call.run ConsensusSystem.exampleReported
        (ConsensusSystem.exampleEnv 3 384 ConsensusSystem.exampleReportTime_pos) = .error r →
      OwnRevert r := by
  obtain ⟨history, hrun⟩ := RecordedSystem.exists_reachable ConsensusSystem.reachable_exampleReported
  have hnext := hrun.step (@RecordedSystem.Step.process _ _
    (ConsensusSystem.exampleEnv 3 384 ConsensusSystem.exampleReportTime_pos) 31 1 _ 5 history
    (by decide +kernel) (eq_ok_result _ (by decide +kernel)))
  obtain ⟨-, hincreasing, htimely, -⟩ := processing_discipline hnext
  obtain ⟨hcalls, -, -, -⟩ := processing_discipline hrun
  have hversion : ConsensusSystem.exampleReported.processor.contractVersion ≠ 0 := by
    decide +kernel
  have hstart : AtSlotStart ConsensusSystem.exampleReported.consensus.chain 384 := by
    decide +kernel
  have htimes : ConsensusSystem.exampleReported.consensus.TimesFit 384 := by
    decide +kernel
  refine ⟨history, htimely, hincreasing, fun call r hcall => ?_⟩
  exact (hcalls _ rfl hversion hstart htimes call r hcall).1

end Catalist
