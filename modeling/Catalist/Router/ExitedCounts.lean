import Catalist.Lib.Sums
import Catalist.Router.Invariant
import Catalist.Router.Registries
import Catalist.Router.Rewards

/-!
# Reports of exited validators

The router stores how many validators of each module have exited, and passes the counts of the
single operators on to the module, which adds them up by itself. Whenever the active validators of a
module are counted, the larger one of the two totals is subtracted from the module's deposits, and in
no run is there less to subtract from.
-/

namespace Catalist

open Solidity Transition Finset

/-- The calls by which the counts of the operators reach a module. -/
structure RouterReportCallees (ε ρ : Type) extends RouterCallees ε ρ where
  updateExitedValidatorsCount : ρ → Address → Bytes → Bytes → Call ε ρ
  updateStuckValidatorsCount : ρ → Address → Bytes → Bytes → Call ε ρ

namespace StakingRouter

section calls

variable {ε ρ : Type} (s : StakingRouter)

/-- The loop of `updateExitedValidatorsCountByStakingModule`, over the ids and counts that are left. -/
def updateExitedValidatorsCountLoop (callees : RouterCallees ε ρ) (world : ρ) :
    List (Nat × Nat) → StakingRouter → Nat → Call (RouterError ε) (StakingRouter × Nat)
  | [], s, newlyExitedValidatorsCount => return (s, newlyExitedValidatorsCount)
  | (stakingModuleId, exitedValidatorsCount) :: rest, s, newlyExitedValidatorsCount => do
    let index ← s.getStakingModuleIndexById stakingModuleId
    let stakingModule := s.stakingModules index
    let prevReportedExitedValidatorsCount := stakingModule.exitedValidatorsCount
    require (prevReportedExitedValidatorsCount ≤ exitedValidatorsCount)
      .exitedValidatorsCountCannotDecrease
    let summary ← within .callee
      (callees.getStakingModuleSummary world stakingModule.stakingModuleAddress)
    require (exitedValidatorsCount ≤ summary.totalDepositedValidators)
      (.reportedExitedValidatorsExceedDeposited exitedValidatorsCount
        summary.totalDepositedValidators)
    let newlyExited ← checkedSub exitedValidatorsCount prevReportedExitedValidatorsCount
    let newlyExitedValidatorsCount ← checkedAdd 256 newlyExitedValidatorsCount newlyExited
    updateExitedValidatorsCountLoop callees world rest
      (s.setStakingModule index
        { stakingModule with exitedValidatorsCount := exitedValidatorsCount })
      newlyExitedValidatorsCount

/-- `updateExitedValidatorsCountByStakingModule`, with the increase of all counts. -/
def updateExitedValidatorsCountByStakingModule (callees : RouterCallees ε ρ) (env : RouterEnv)
    (stakingModuleIds exitedValidatorsCounts : List Nat) (world : ρ) :
    Call (RouterError ε) (StakingRouter × Nat) := do
  s.onlyRole env .reportExitedValidators
  require (stakingModuleIds.length = exitedValidatorsCounts.length)
    (.arraysLengthMismatch stakingModuleIds.length exitedValidatorsCounts.length)
  updateExitedValidatorsCountLoop callees world (stakingModuleIds.zip exitedValidatorsCounts) s 0

/-- `_checkValidatorsByNodeOperatorReportData` -/
def checkValidatorsByNodeOperatorReportData (nodeOperatorIds validatorsCounts : Bytes) :
    Call (RouterError ε) Unit := do
  require (nodeOperatorIds.length % 8 = 0 ∧ validatorsCounts.length % 16 = 0) (.invalidReportData 3)
  let nodeOperatorsCount := nodeOperatorIds.length / 8
  require (validatorsCounts.length / 16 = nodeOperatorsCount) (.invalidReportData 2)
  require (nodeOperatorsCount ≠ 0) (.invalidReportData 1)

/-- The two reports below, which differ in the function of the module that they call. -/
def reportValidatorsCountByNodeOperator (update : ρ → Address → Bytes → Bytes → Call ε ρ)
    (env : RouterEnv) (stakingModuleId : Nat) (nodeOperatorIds validatorsCounts : Bytes)
    (world : ρ) : Call (RouterError ε) ρ := do
  s.onlyRole env .reportExitedValidators
  let index ← s.getStakingModuleIndexById stakingModuleId
  let moduleAddr := (s.stakingModules index).stakingModuleAddress
  checkValidatorsByNodeOperatorReportData nodeOperatorIds validatorsCounts
  within .callee (update world moduleAddr nodeOperatorIds validatorsCounts)

def reportStakingModuleExitedValidatorsCountByNodeOperator (callees : RouterReportCallees ε ρ)
    (env : RouterEnv) (stakingModuleId : Nat) (nodeOperatorIds exitedValidatorsCounts : Bytes)
    (world : ρ) : Call (RouterError ε) ρ :=
  s.reportValidatorsCountByNodeOperator callees.updateExitedValidatorsCount env stakingModuleId
    nodeOperatorIds exitedValidatorsCounts world

def reportStakingModuleStuckValidatorsCountByNodeOperator (callees : RouterReportCallees ε ρ)
    (env : RouterEnv) (stakingModuleId : Nat) (nodeOperatorIds stuckValidatorsCounts : Bytes)
    (world : ρ) : Call (RouterError ε) ρ :=
  s.reportValidatorsCountByNodeOperator callees.updateStuckValidatorsCount env stakingModuleId
    nodeOperatorIds stuckValidatorsCounts world

/-- `getStakingModuleActiveValidatorsCount` -/
def getStakingModuleActiveValidatorsCount (callees : RouterCallees ε ρ) (stakingModuleId : Nat)
    (world : ρ) : Call (RouterError ε) Nat := do
  let index ← s.getStakingModuleIndexById stakingModuleId
  let stakingModule := s.stakingModules index
  let summary ← within .callee
    (callees.getStakingModuleSummary world stakingModule.stakingModuleAddress)
  checkedSub summary.totalDepositedValidators
    (max stakingModule.exitedValidatorsCount summary.totalExitedValidators)

end calls

/-! ## What a report changes -/

variable {ε ρ : Type} {s s' s'' : StakingRouter} {callees : RouterCallees ε ρ} {world : ρ}
  {index newly newly' newly'' : Nat} {deposited : Address → Nat}

/-- The exited validators that the router has stored, of all modules. -/
def exitedSum (s : StakingRouter) : Nat :=
  ∑ i ∈ range s.stakingModulesCount, (s.stakingModules i).exitedValidatorsCount

/-- The modules stay in their places, under their ids, and no exited count becomes less. -/
structure Later (s s' : StakingRouter) : Prop where
  count_le : s.stakingModulesCount ≤ s'.stakingModulesCount
  id : ∀ i < s.stakingModulesCount, (s'.stakingModules i).id = (s.stakingModules i).id
  address : ∀ i < s.stakingModulesCount,
    (s'.stakingModules i).stakingModuleAddress = (s.stakingModules i).stakingModuleAddress
  exited_le : ∀ i, (s.stakingModules i).exitedValidatorsCount
    ≤ (s'.stakingModules i).exitedValidatorsCount

theorem Later.refl (s : StakingRouter) : Later s s :=
  ⟨Nat.le_refl _, fun _ _ => rfl, fun _ _ => rfl, fun _ => Nat.le_refl _⟩

theorem Later.trans (h : Later s s') (h' : Later s' s'') : Later s s'' := by
  have hlt : ∀ i < s.stakingModulesCount, i < s'.stakingModulesCount :=
    fun i hi => hi.trans_le h.count_le
  refine ⟨h.count_le.trans h'.count_le, fun i hi => ?_, fun i hi => ?_, fun i => ?_⟩
  · exact (h'.id i (hlt i hi)).trans (h.id i hi)
  · exact (h'.address i (hlt i hi)).trans (h.address i hi)
  · exact (h.exited_le i).trans (h'.exited_le i)

/-- A module that keeps its id and address can be written, if its count does not become less. -/
theorem later_setStakingModule {m : StakingModule} (hid : m.id = (s.stakingModules index).id)
    (haddress : m.stakingModuleAddress = (s.stakingModules index).stakingModuleAddress)
    (hexited : (s.stakingModules index).exitedValidatorsCount ≤ m.exitedValidatorsCount) :
    Later s (s.setStakingModule index m) := by
  unfold setStakingModule
  refine ⟨Nat.le_refl _, fun i _ => ?_, fun i _ => ?_, fun i => ?_⟩
  all_goals
    simp only
    by_cases hi : i = index
    · subst hi
      simp only [Function.update_self]
      assumption
    · simp only [Function.update_of_ne hi, Nat.le_refl]

/--
The counts have grown by as much as the count of newly exited validators has, and those that have
grown are covered by deposits.
-/
structure Raised (deposited : Address → Nat) (newly newly' : Nat) (s s' : StakingRouter) : Prop where
  later : Later s s'
  managed : Managed s'
  count : s'.stakingModulesCount = s.stakingModulesCount
  covered : ∀ i, (s'.stakingModules i).exitedValidatorsCount
      = (s.stakingModules i).exitedValidatorsCount ∨
    i < s.stakingModulesCount ∧ (s'.stakingModules i).exitedValidatorsCount
      ≤ deposited (s.stakingModules i).stakingModuleAddress
  sum : s'.exitedSum + newly = s.exitedSum + newly'

theorem Raised.trans (h : Raised deposited newly newly' s s')
    (h' : Raised deposited newly' newly'' s' s'') : Raised deposited newly newly'' s s'' := by
  refine ⟨h.later.trans h'.later, h'.managed, h'.count.trans h.count, fun i => ?_, ?_⟩
  · rcases h'.covered i with hsame | ⟨hi, hle⟩
    · rw [hsame]
      exact h.covered i
    · rw [h.count] at hi
      rw [h.later.address i hi] at hle
      exact .inr ⟨hi, hle⟩
  · have hsum := h.sum
    have hsum' := h'.sum
    omega

/-- One pass of the loop. -/
theorem raised_setExited (h : Managed s) {id count : Nat}
    (hindex : s.stakingModuleIndicesOneBased id = index + 1)
    (hprev : (s.stakingModules index).exitedValidatorsCount ≤ count)
    (hdeposited : count ≤ deposited (s.stakingModules index).stakingModuleAddress) (newly : Nat) :
    Raised deposited newly (newly + (count - (s.stakingModules index).exitedValidatorsCount)) s
      (s.setStakingModule index
        { s.stakingModules index with exitedValidatorsCount := count }) := by
  have hlt : index < s.stakingModulesCount := by
    have hle := h.index_le id
    omega
  have hexited : ∀ i, ((s.setStakingModule index
      { s.stakingModules index with exitedValidatorsCount := count }).stakingModules
        i).exitedValidatorsCount
      = Function.update (fun i => (s.stakingModules i).exitedValidatorsCount) index count i := by
    intro i
    by_cases hi : i = index
    · subst hi
      simp [setStakingModule]
    · simp [setStakingModule, hi]
  refine ⟨later_setStakingModule rfl rfl hprev, ?_, rfl, fun i => ?_, ?_⟩
  · exact h.set rfl fun hi => ⟨(h.checked index hi).targetShare_le, (h.checked index hi).fees_le⟩
  · rw [hexited i]
    by_cases hi : i = index
    · subst hi
      rw [Function.update_self]
      exact .inr ⟨hlt, hdeposited⟩
    · rw [Function.update_of_ne hi]
      exact .inl rfl
  · have hsum := Ledger.sum_update_add (s := range s.stakingModulesCount)
      (f := fun i => (s.stakingModules i).exitedValidatorsCount) count (mem_range.mpr hlt)
    unfold exitedSum
    simp only [hexited]
    have hcount : (s.setStakingModule index { s.stakingModules index with
      exitedValidatorsCount := count }).stakingModulesCount = s.stakingModulesCount := rfl
    rw [hcount]
    omega

/-- The induction is over the ids and counts that are left; an id may well come again. -/
theorem raised_updateExitedValidatorsCountLoop (h : Managed s) {rest : List (Nat × Nat)}
    (hdeposited : ∀ addr summary, callees.getStakingModuleSummary world addr = .ok summary →
      summary.totalDepositedValidators = deposited addr)
    (hcall : updateExitedValidatorsCountLoop callees world rest s newly = .ok (s', newly')) :
    Raised deposited newly newly' s s' := by
  induction rest generalizing s newly with
  | nil =>
    simp only [updateExitedValidatorsCountLoop, pure_eq_ok, Prod.mk.injEq] at hcall
    obtain ⟨rfl, rfl⟩ := hcall
    exact ⟨.refl s, h, rfl, fun _ => .inl rfl, rfl⟩
  | cons report rest ih =>
    simp only [updateExitedValidatorsCountLoop, bind_eq_ok, require_eq_ok, within_eq_ok,
      checkedSub_eq_ok, checkedAdd_eq_ok] at hcall
    obtain ⟨index, hindex, _, hprev, summary, hsummary, _, hle, _, ⟨-, rfl⟩, _, ⟨-, rfl⟩, hrest⟩ :=
      hcall
    rw [hdeposited _ _ hsummary] at hle
    have hone := raised_setExited h (getStakingModuleIndexById_ok_cases hindex) hprev hle
    exact (hone newly).trans (ih (hone newly).managed hrest)

end StakingRouter

end Catalist
