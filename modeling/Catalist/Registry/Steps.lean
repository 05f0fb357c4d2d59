import Catalist.Lib.History
import Catalist.Registry.Deposits
import Catalist.Registry.KeyEffects

/-!
# Runs of the registry

The calls of the registry as data. A run begins with `initialize` on empty storage, and every call
of it may come from any sender, at any time, under any answers of the access control list.
`ensures_run` puts the lemmas about the functions together.
-/

namespace Catalist

open Solidity Transition

inductive RegistryAction where
  | setOwner (adr : Address) (status : Bool)
  | setStuckPenaltyDelay (delay : Nat)
  | addNodeOperator (name : Bytes) (rewardAddress : Address)
  | activateNodeOperator (nodeOperatorId : Nat)
  | deactivateNodeOperator (nodeOperatorId : Nat)
  | setNodeOperatorName (nodeOperatorId : Nat) (name : Bytes)
  | setNodeOperatorRewardAddress (nodeOperatorId : Nat) (rewardAddress : Address)
  | setNodeOperatorStakingLimit (nodeOperatorId vettedSigningKeysCount : Nat)
  | updateStuckValidatorsCount (nodeOperatorIds stuckValidatorsCounts : Bytes)
  | updateExitedValidatorsCount (nodeOperatorIds exitedValidatorsCounts : Bytes)
  | updateRefundedValidatorsCount (nodeOperatorId refundedValidatorsCount : Nat)
  | unsafeUpdateValidatorsCount
      (nodeOperatorId exitedValidatorsCount stuckValidatorsCount : Nat)
  | updateTargetValidatorsLimits (nodeOperatorId : Nat) (isTargetLimitActive : Bool)
      (targetLimit : Nat)
  | clearNodeOperatorPenalty (nodeOperatorId : Nat)
  | onWithdrawalCredentialsChanged
  | invalidateReadyToDepositKeysRange (indexFrom indexTo : Nat)
  | obtainDepositData (depositsCount : Nat)
  | addSigningKeys (nodeOperatorId keysCount : Nat) (publicKeys signatures : Bytes)
  | addSigningKeysOperatorBH (nodeOperatorId keysCount : Nat) (publicKeys signatures : Bytes)
  | removeSigningKey (nodeOperatorId index : Nat)
  | removeSigningKeys (nodeOperatorId fromIndex keysCount : Nat)
  | removeSigningKeyOperatorBH (nodeOperatorId index : Nat)
  | removeSigningKeysOperatorBH (nodeOperatorId fromIndex keysCount : Nat)

/-- The call, without its return value. -/
def RegistryAction.run (action : RegistryAction) (getKeyOffset : Nat → Nat → BitVec 256)
    (env : RegistryEnv) (s : NodeOperatorsRegistry) : Call RegistryError NodeOperatorsRegistry :=
  match action with
  | .setOwner adr status => s.setOwner env adr status
  | .setStuckPenaltyDelay delay => s.setStuckPenaltyDelay env delay
  | .addNodeOperator name rewardAddress => Prod.fst <$> s.addNodeOperator env name rewardAddress
  | .activateNodeOperator id => s.activateNodeOperator env id
  | .deactivateNodeOperator id => s.deactivateNodeOperator env id
  | .setNodeOperatorName id name => s.setNodeOperatorName env id name
  | .setNodeOperatorRewardAddress id rewardAddress =>
    s.setNodeOperatorRewardAddress env id rewardAddress
  | .setNodeOperatorStakingLimit id vettedSigningKeysCount =>
    s.setNodeOperatorStakingLimit env id vettedSigningKeysCount
  | .updateStuckValidatorsCount ids counts => s.updateStuckValidatorsCount env ids counts
  | .updateExitedValidatorsCount ids counts => s.updateExitedValidatorsCount env ids counts
  | .updateRefundedValidatorsCount id count => s.updateRefundedValidatorsCount env id count
  | .unsafeUpdateValidatorsCount id exitedCount stuckCount =>
    s.unsafeUpdateValidatorsCount env id exitedCount stuckCount
  | .updateTargetValidatorsLimits id isTargetLimitActive targetLimit =>
    s.updateTargetValidatorsLimits env id isTargetLimitActive targetLimit
  | .clearNodeOperatorPenalty id => s.clearNodeOperatorPenalty env id
  | .onWithdrawalCredentialsChanged => s.onWithdrawalCredentialsChanged env
  | .invalidateReadyToDepositKeysRange indexFrom indexTo =>
    s.invalidateReadyToDepositKeysRange env indexFrom indexTo
  | .obtainDepositData depositsCount =>
    Prod.fst <$> s.obtainDepositData getKeyOffset env depositsCount
  | .addSigningKeys id keysCount publicKeys signatures =>
    s.addSigningKeys getKeyOffset env id keysCount publicKeys signatures
  | .addSigningKeysOperatorBH id keysCount publicKeys signatures =>
    s.addSigningKeysOperatorBH getKeyOffset env id keysCount publicKeys signatures
  | .removeSigningKey id index => s.removeSigningKey getKeyOffset env id index
  | .removeSigningKeys id fromIndex keysCount =>
    s.removeSigningKeys getKeyOffset env id fromIndex keysCount
  | .removeSigningKeyOperatorBH id index => s.removeSigningKeyOperatorBH getKeyOffset env id index
  | .removeSigningKeysOperatorBH id fromIndex keysCount =>
    s.removeSigningKeysOperatorBH getKeyOffset env id fromIndex keysCount

/--
The numbers that the call stores have room in their 64 bits: the end of a penalty, and the total
of all keys.
-/
def RegistryAction.Fits (action : RegistryAction) (env : RegistryEnv)
    (s : NodeOperatorsRegistry) : Prop :=
  match action with
  | .updateStuckValidatorsCount .. | .updateRefundedValidatorsCount ..
  | .unsafeUpdateValidatorsCount .. => env.timestamp + s.stuckPenaltyDelay < 2 ^ 64
  | .addSigningKeys _ keysCount .. | .addSigningKeysOperatorBH _ keysCount .. =>
    s.sumOver NodeOperator.total + keysCount < 2 ^ 64
  | _ => True

/-- What the call may change. -/
def RegistryAction.parts (action : RegistryAction) : List RegistryPart :=
  match action with
  | .setOwner .. | .setStuckPenaltyDelay .. | .addNodeOperator .. | .setNodeOperatorName ..
  | .setNodeOperatorRewardAddress .. => []
  | .activateNodeOperator .. | .deactivateNodeOperator .. | .updateExitedValidatorsCount ..
  | .updateTargetValidatorsLimits .. | .obtainDepositData .. => [.nonce]
  | .setNodeOperatorStakingLimit .. => [.nonce, .vetted]
  | .updateStuckValidatorsCount .. | .unsafeUpdateValidatorsCount ..
  | .clearNodeOperatorPenalty .. => [.nonce, .penalties]
  | .updateRefundedValidatorsCount .. => [.ready, .penalties]
  | .onWithdrawalCredentialsChanged | .invalidateReadyToDepositKeysRange .. | .addSigningKeys ..
  | .addSigningKeysOperatorBH .. | .removeSigningKey .. | .removeSigningKeys ..
  | .removeSigningKeyOperatorBH .. | .removeSigningKeysOperatorBH .. => [.nonce, .keys]

namespace NodeOperatorsRegistry

variable {s s' : NodeOperatorsRegistry} {env : RegistryEnv} {action : RegistryAction}
  {getKeyOffset : Nat → Nat → BitVec 256}

/-- The storage before `initialize`. -/
structure Fresh (s : NodeOperatorsRegistry) : Prop where
  operators : ∀ id, (s.operators id).Blank
  summarySigningKeysStats : s.summarySigningKeysStats = ⟨0⟩
  totalOperatorsCount : s.totalOperatorsCount = 0
  activeOperatorsCount : s.activeOperatorsCount = 0
  keysOpIndex : s.keysOpIndex = 0
  stuckPenaltyDelay : s.stuckPenaltyDelay = 0
  owners : ∀ a, s.owners a = false
  signingKeys : ∀ w, s.signingKeys w = 0

/-- A registry right after `initialize`. -/
def Initial (s : NodeOperatorsRegistry) : Prop :=
  ∃ s₀ env locator delay, Fresh s₀ ∧ s₀.initializeRegistry env locator delay = .ok s

/-- A call that goes through. -/
def Step (getKeyOffset : Nat → Nat → BitVec 256) (s s' : NodeOperatorsRegistry) : Prop :=
  ∃ env action, RegistryAction.run action getKeyOffset env s = .ok s'

/-- Some calls one after the other. -/
def runAll (getKeyOffset : Nat → Nat → BitVec 256) (s : NodeOperatorsRegistry) :
    List (RegistryEnv × RegistryAction) → Call RegistryError NodeOperatorsRegistry
  | [] => return s
  | (env, action) :: calls => do
    let s ← action.run getKeyOffset env s
    s.runAll getKeyOffset calls

/-! ## The invariant -/

theorem invariant_of_initial (h : Initial s) : Invariant s := by
  obtain ⟨s₀, env, locator, delay, hfresh, hinit⟩ := h
  simp only [initializeRegistry, setStuckPenaltyDelayInternal, onlyNonZeroAddress, bind_eq_ok,
    require_eq_ok, pure_eq_ok] at hinit
  obtain ⟨_, _, _, hdelay, rfl⟩ := hinit
  have hnone : ∀ f : NodeOperator → Nat,
      ∑ id ∈ Finset.range s₀.totalOperatorsCount, f (s₀.operators id) = 0 := by
    intro f
    rw [hfresh.totalOperatorsCount]
    rfl
  have hzero : ∀ n, s₀.summarySigningKeysStats.get n = 0 := by
    intro n
    rw [hfresh.summarySigningKeysStats]
    exact NodeOperator.get_zero n
  exact
    { wellFormed := fun id => (hfresh.operators id).wellFormed
      settled := fun id => (hfresh.operators id).settled
      blank := fun id _ => hfresh.operators id
      max := (hzero _).trans (hnone _).symm
      exited := (hzero _).trans (hnone _).symm
      total := (hzero _).trans (hnone _).symm
      deposited := (hzero _).trans (hnone _).symm
      active := hfresh.activeOperatorsCount.trans (hnone _).symm
      totalOperatorsCount_le := hfresh.totalOperatorsCount.trans_le (Nat.zero_le _)
      stuckPenaltyDelay_le := hdelay }

theorem totalOperatorsCount_of_initial (h : Initial s) : s.totalOperatorsCount = 0 := by
  obtain ⟨s₀, env, locator, delay, hfresh, hinit⟩ := h
  simp only [initializeRegistry, setStuckPenaltyDelayInternal, onlyNonZeroAddress, bind_eq_ok,
    require_eq_ok, pure_eq_ok] at hinit
  obtain ⟨_, _, _, _, rfl⟩ := hinit
  exact hfresh.totalOperatorsCount

theorem Keeps.ensures {fits : Prop} {parts : List RegistryPart}
    {x : Call RegistryError NodeOperatorsRegistry} (h : Keeps s fits parts x) :
    Ensures (Harmless fits) x (Grown parts s) :=
  h.mono fun _ hs => hs.grown

/--
**Every call keeps the invariant and what is not its business, and fails harmlessly**, one case for
each function.
-/
theorem ensures_run (h : Invariant s) :
    Ensures (Harmless (action.Fits env s)) (action.run getKeyOffset env s)
      (Grown action.parts s) := by
  have hle : ∀ {n}, n < 2 ^ 64 → n ≤ UINT64_MAX := fun hn => Nat.le_of_lt_succ hn
  cases action with
  | setOwner adr status => exact (keeps_setOwner h).ensures
  | setStuckPenaltyDelay delay => exact ensures_setStuckPenaltyDelay h
  | addNodeOperator name rewardAddress =>
    exact (ensures_addNodeOperator h).map fun _ hr => hr
  | activateNodeOperator id => exact (keeps_activateNodeOperator h).ensures
  | deactivateNodeOperator id => exact (keeps_deactivateNodeOperator h).ensures
  | setNodeOperatorName id name => exact (keeps_setNodeOperatorName h).ensures
  | setNodeOperatorRewardAddress id rewardAddress =>
    exact (keeps_setNodeOperatorRewardAddress h).ensures
  | setNodeOperatorStakingLimit id count => exact (keeps_setNodeOperatorStakingLimit h).ensures
  | updateStuckValidatorsCount ids counts =>
    exact (keeps_updateStuckValidatorsCount h fun hfits => hle hfits).ensures
  | updateExitedValidatorsCount ids counts => exact (keeps_updateExitedValidatorsCount h).ensures
  | updateRefundedValidatorsCount id count =>
    exact (keeps_updateRefundedValidatorsCount h fun hfits => hle hfits).ensures
  | unsafeUpdateValidatorsCount id exitedCount stuckCount =>
    exact (keeps_unsafeUpdateValidatorsCount h fun hfits => hle hfits).ensures
  | updateTargetValidatorsLimits id isActive targetLimit =>
    exact (keeps_updateTargetValidatorsLimits h).ensures
  | clearNodeOperatorPenalty id => exact (keeps_clearNodeOperatorPenalty h).ensures
  | onWithdrawalCredentialsChanged => exact (keeps_onWithdrawalCredentialsChanged h).ensures
  | invalidateReadyToDepositKeysRange indexFrom indexTo =>
    exact (keeps_invalidateReadyToDepositKeysRange h).ensures
  | obtainDepositData depositsCount =>
    refine (ensures_obtainDepositData h (.inr fun _ => not_false) (.inr fun _ => not_false)).map
      fun r hr => ?_
    exact
      { hr.2.1 with
        invariant := hr.1.invariant
        deposited_le := hr.1.deposited.deposited_le }
  | addSigningKeys id keysCount publicKeys signatures =>
    exact (keeps_addSigningKeys h fun hfits => hle hfits).ensures
  | addSigningKeysOperatorBH id keysCount publicKeys signatures =>
    exact (keeps_addSigningKeys h fun hfits => hle hfits).ensures
  | removeSigningKey id index => exact (keeps_removeSigningKeys h).ensures
  | removeSigningKeys id fromIndex keysCount => exact (keeps_removeSigningKeys h).ensures
  | removeSigningKeyOperatorBH id index => exact (keeps_removeSigningKeys h).ensures
  | removeSigningKeysOperatorBH id fromIndex keysCount =>
    exact (keeps_removeSigningKeys h).ensures

theorem invariant_of_reachable (h : Reachable Initial (Step getKeyOffset) s) : Invariant s := by
  refine h.invariant (fun _ hinit => invariant_of_initial hinit) ?_
  rintro s s' hs ⟨env, action, hrun⟩
  exact ((ensures_run hs).of_ok hrun).invariant

/-- The induction is over the calls that are left. -/
theorem reachable_runAll {calls : List (RegistryEnv × RegistryAction)}
    (hr : Reachable Initial (Step getKeyOffset) s) (h : s.runAll getKeyOffset calls = .ok s') :
    Reachable Initial (Step getKeyOffset) s' := by
  induction calls generalizing s with
  | nil =>
    cases h
    exact hr
  | cons call calls ih =>
    simp only [runAll, bind_eq_ok] at h
    obtain ⟨s₁, hrun, hrest⟩ := h
    exact ih (hr.step ⟨call.1, call.2, hrun⟩) hrest

/-! ## Recorded runs -/

/-- A run of the registry, with all its calls. -/
abbrev RegistryLog := Recorded NodeOperatorsRegistry (RegistryEnv × RegistryAction)

abbrev RegistryCall := Moment NodeOperatorsRegistry (RegistryEnv × RegistryAction)

/-- The calls of a run. -/
def Calls (getKeyOffset : Nat → Nat → BitVec 256) (s : NodeOperatorsRegistry)
    (call : RegistryEnv × RegistryAction) (s' : NodeOperatorsRegistry) : Prop :=
  call.2.run getKeyOffset call.1 s = .ok s'

abbrev LogRun (getKeyOffset : Nat → Nat → BitVec 256) (w : RegistryLog) : Prop :=
  Reachable (Recorded.Starts Initial) (Recorded.Acts (Calls getKeyOffset)) w

theorem reachable_of_log {w : RegistryLog} (h : LogRun getKeyOffset w) :
    Reachable Initial (Step getKeyOffset) w.state :=
  h.unrecorded fun _ call _ hcall => ⟨call.1, call.2, hcall⟩

theorem exists_log (h : Reachable Initial (Step getKeyOffset) s) :
    ∃ history, LogRun getKeyOffset ⟨s, history⟩ := by
  refine h.exists_recorded ?_
  rintro s s' ⟨env, action, hrun⟩
  exact ⟨(env, action), hrun⟩

/-- Some calls one after the other, recorded. -/
def recordAll (getKeyOffset : Nat → Nat → BitVec 256) :
    List (RegistryEnv × RegistryAction) → RegistryLog → Call RegistryError RegistryLog
  | [], w => return w
  | call :: calls, w => do
    let s ← call.2.run getKeyOffset call.1 w.state
    recordAll getKeyOffset calls (w.record call s)

/-- The induction is over the calls that are left. -/
theorem log_of_recordAll {calls : List (RegistryEnv × RegistryAction)} {w w' : RegistryLog}
    (hw : LogRun getKeyOffset w) (h : recordAll getKeyOffset calls w = .ok w') :
    LogRun getKeyOffset w' := by
  induction calls generalizing w with
  | nil =>
    cases h
    exact hw
  | cons call calls ih =>
    simp only [recordAll, bind_eq_ok] at h
    obtain ⟨s, hrun, hrest⟩ := h
    exact ih (hw.step (.act hrun)) hrest

/-! ## An example -/

/-- Somebody who may do everything. -/
def exampleRegistryEnv : RegistryEnv where
  sender := 1
  value := 0
  timestamp := 100
  timestamp_pos := by decide
  canPerform _ _ := true
  catalist := 9

/-- Keys of different operators are far apart. -/
def exampleKeyOffset (id index : Nat) : BitVec 256 := BitVec.ofNat 256 (2 ^ 80 * id + 8 * index)

def exampleOperator : NodeOperator where
  active := false
  rewardAddress := 0
  name := []
  signingKeysStats := ⟨0⟩
  stuckPenaltyStats := ⟨0⟩
  targetValidatorsStats := ⟨0⟩

def exampleFreshRegistry : NodeOperatorsRegistry where
  operators _ := exampleOperator
  summarySigningKeysStats := ⟨0⟩
  totalOperatorsCount := 0
  activeOperatorsCount := 0
  keysOpIndex := 0
  stuckPenaltyDelay := 0
  owners _ := false
  signingKeys _ := 0

/-- Two operators with two keys each; one key of the first operator is vetted, and all of the
second. -/
def exampleCalls : List (RegistryEnv × RegistryAction) :=
  [(exampleRegistryEnv, .addNodeOperator [65] 2),
   (exampleRegistryEnv, .addNodeOperator [66] 3),
   (exampleRegistryEnv, .addSigningKeys 0 2 (List.replicate 96 1) (List.replicate 192 2)),
   (exampleRegistryEnv, .addSigningKeys 1 2 (List.replicate 96 3) (List.replicate 192 4)),
   (exampleRegistryEnv, .setNodeOperatorStakingLimit 0 1),
   (exampleRegistryEnv, .setNodeOperatorStakingLimit 1 2)]

def exampleInitialRegistry : NodeOperatorsRegistry :=
  result (exampleFreshRegistry.initializeRegistry exampleRegistryEnv 7 1000) (by decide +kernel)

def exampleRegistry : NodeOperatorsRegistry :=
  result (exampleInitialRegistry.runAll exampleKeyOffset exampleCalls) (by decide +kernel)

theorem initial_exampleInitialRegistry : Initial exampleInitialRegistry :=
  ⟨exampleFreshRegistry, exampleRegistryEnv, 7, 1000,
    ⟨fun _ => ⟨rfl, rfl, rfl, rfl⟩, rfl, rfl, rfl, rfl, rfl, fun _ => rfl, fun _ => rfl⟩,
    eq_ok_result _ (by decide +kernel)⟩

theorem runAll_exampleRegistry :
    exampleInitialRegistry.runAll exampleKeyOffset exampleCalls = .ok exampleRegistry :=
  eq_ok_result _ (by decide +kernel)

end NodeOperatorsRegistry

end Catalist
