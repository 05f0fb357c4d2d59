import Catalist.Router.Credentials

/-!
# Runs with reports of exited validators

All calls of the router, and of its modules, which are registries. Both keep totals of exited
validators, independently of each other. `Covered` says that neither total is ever above the module's
deposits, whatever is called in which order.
-/

namespace Catalist

open Solidity Transition Finset

/-! ## Runs -/

/-- The reports of a router whose modules are registries. -/
def ModuleWorld.registryReportCallees {ε δ : Type} (getKeyOffset : Nat → Nat → BitVec 256)
    (env : RegistryEnv) (depositInto : δ → Bytes → Bytes → Bytes → Call ε δ) :
    RouterReportCallees (CalleeError ε) (ModuleWorld δ) where
  toRouterCallees := ModuleWorld.registryCallees getKeyOffset env depositInto
  updateExitedValidatorsCount world addr nodeOperatorIds exitedValidatorsCounts := do
    let registry ← within .registry
      ((world.registries addr).updateExitedValidatorsCount env nodeOperatorIds
        exitedValidatorsCounts)
    return world.set addr registry
  updateStuckValidatorsCount world addr nodeOperatorIds stuckValidatorsCounts := do
    let registry ← within .registry
      ((world.registries addr).updateStuckValidatorsCount env nodeOperatorIds
        stuckValidatorsCounts)
    return world.set addr registry

/-- The router, and the contracts that it calls. -/
structure RouterSystem (δ : Type) where
  router : StakingRouter
  world : ModuleWorld δ

/-- The calls of a run. -/
inductive RouterAction where
  | manage
  | setWithdrawalCredentials (env : AnswerEnv) (withdrawalCredentials : BitVec 256)
  | deposit (depositsCount stakingModuleId : Nat)
  | report
  | correct
  | registry (addr : Address) (action : RegistryAction)
  | other

namespace RouterSystem

open ModuleWorld

variable {ε δ : Type} {getKeyOffset : Nat → Nat → BitVec 256}
  {depositInto : δ → Bytes → Bytes → Bytes → Call ε δ} {x x' : RouterSystem δ}

/-- A router without modules, on storage that was never written, and any registries. -/
structure Initial (getKeyOffset : Nat → Nat → BitVec 256) (x : RouterSystem δ) : Prop where
  fresh : x.router.Fresh
  exited : ∀ i, (x.router.stakingModules i).exitedValidatorsCount = 0
  reached : x.world.Reached getKeyOffset

/-- What each call does. -/
inductive Performs (getKeyOffset : Nat → Nat → BitVec 256)
    (depositInto : δ → Bytes → Bytes → Bytes → Call ε δ) :
    RouterSystem δ → RouterAction → RouterSystem δ → Prop where
  | manage {x : RouterSystem δ} {env : RouterEnv} {router : StakingRouter} (call : ManagementCall) :
      (x.router.run env call : Call (RouterError Unit) StakingRouter) = .ok router →
      Performs getKeyOffset depositInto x .manage { x with router := router }
  | setWithdrawalCredentials {x : RouterSystem δ} {env : AnswerEnv}
      {hasManageRole : Address → Bool} {routerEnv : RouterEnv}
      {withdrawalCredentials : BitVec 256} {router : StakingRouter} {world : ModuleWorld δ} :
      x.router.setWithdrawalCredentials (onWithdrawalCredentialsChanged env) hasManageRole routerEnv
        withdrawalCredentials x.world = .ok (router, world) →
      Performs getKeyOffset depositInto x (.setWithdrawalCredentials env withdrawalCredentials)
        { router := router, world := world }
  | deposit {x : RouterSystem δ} {registryEnv : RegistryEnv} {env : RouterEnv}
      {depositsCount stakingModuleId : Nat} {depositCalldata : Bytes} {router : StakingRouter}
      {world : ModuleWorld δ} :
      x.router.deposit (registryCallees getKeyOffset registryEnv depositInto) env depositsCount
        stakingModuleId depositCalldata x.world = .ok (router, world) →
      Performs getKeyOffset depositInto x (.deposit depositsCount stakingModuleId)
        { router := router, world := world }
  | updateExitedValidatorsCountByStakingModule {x : RouterSystem δ} {registryEnv : RegistryEnv}
      {env : RouterEnv} {stakingModuleIds exitedValidatorsCounts : List Nat}
      {router : StakingRouter} {newlyExitedValidatorsCount : Nat} :
      x.router.updateExitedValidatorsCountByStakingModule
        (registryCallees getKeyOffset registryEnv depositInto) env stakingModuleIds
        exitedValidatorsCounts x.world = .ok (router, newlyExitedValidatorsCount) →
      Performs getKeyOffset depositInto x .report { x with router := router }
  | reportExitedByNodeOperator {x : RouterSystem δ} {registryEnv : RegistryEnv} {env : RouterEnv}
      {stakingModuleId : Nat} {nodeOperatorIds exitedValidatorsCounts : Bytes}
      {world : ModuleWorld δ} :
      x.router.reportStakingModuleExitedValidatorsCountByNodeOperator
        (registryReportCallees getKeyOffset registryEnv depositInto) env stakingModuleId
        nodeOperatorIds exitedValidatorsCounts x.world = .ok world →
      Performs getKeyOffset depositInto x .report { x with world := world }
  | reportStuckByNodeOperator {x : RouterSystem δ} {registryEnv : RegistryEnv} {env : RouterEnv}
      {stakingModuleId : Nat} {nodeOperatorIds stuckValidatorsCounts : Bytes}
      {world : ModuleWorld δ} :
      x.router.reportStakingModuleStuckValidatorsCountByNodeOperator
        (registryReportCallees getKeyOffset registryEnv depositInto) env stakingModuleId
        nodeOperatorIds stuckValidatorsCounts x.world = .ok world →
      Performs getKeyOffset depositInto x .report { x with world := world }
  /-- The counts that the router has stored can be corrected without checks. -/
  | correct {x : RouterSystem δ} {exitedValidatorsCounts : Nat → Nat} :
      Performs getKeyOffset depositInto x .correct
        { x with router := { x.router with
            stakingModules := fun i => { x.router.stakingModules i with
              exitedValidatorsCount := exitedValidatorsCounts i } } }
  /-- Whoever calls a registry, the router or another account. -/
  | registry {x : RouterSystem δ} {addr : Address} {env : RegistryEnv} {action : RegistryAction}
      {registry : NodeOperatorsRegistry} :
      action.run getKeyOffset env (x.world.registries addr) = .ok registry →
      Performs getKeyOffset depositInto x (.registry addr action)
        { x with world := x.world.set addr registry }
  /-- Changes of roles, transfers of ace, and deposits of others. -/
  | other {x : RouterSystem δ} {balance : Nat} {hasRole : RouterRole → Address → Bool}
      {depositContract : δ} :
      Performs getKeyOffset depositInto x .other
        { router := { x.router with balance := balance, hasRole := hasRole }
          world := { x.world with depositContract := depositContract } }

/-- The calls of a run in which nobody corrects the counts of the router. -/
def Step (getKeyOffset : Nat → Nat → BitVec 256)
    (depositInto : δ → Bytes → Bytes → Bytes → Call ε δ) (x x' : RouterSystem δ) : Prop :=
  ∃ action, action ≠ .correct ∧ Performs getKeyOffset depositInto x action x'

/-! ## What the calls do -/

theorem sameModules_noted (s : StakingRouter) (index : Nat) (env : RouterEnv) :
    StakingRouter.SameModules s
      (s.setStakingModule index (StakingRouter.noted (s.stakingModules index) env)) :=
  StakingRouter.sameModules_setStakingModule rfl rfl (fun h => ⟨h.targetShare_le, h.fees_le⟩) id

/-- The induction is over the modules that are left. -/
theorem sameModules_updateExitedValidatorsCountLoop {ρ : Type} {callees : RouterCallees ε ρ}
    {world : ρ} {reports : List (Nat × Nat)} {s s' : StakingRouter} {newly newly' : Nat}
    (h : StakingRouter.updateExitedValidatorsCountLoop callees world reports s newly
      = .ok (s', newly')) :
    StakingRouter.SameModules s s' ∧ s'.withdrawalCredentials = s.withdrawalCredentials := by
  induction reports generalizing s newly with
  | nil =>
    cases h
    exact ⟨.refl _, rfl⟩
  | cons report reports ih =>
    simp only [StakingRouter.updateExitedValidatorsCountLoop, bind_eq_ok] at h
    obtain ⟨index, -, _, -, _, -, _, -, _, -, _, -, hrest⟩ := h
    obtain ⟨hsame, hcredentials⟩ := ih hrest
    refine ⟨.trans ?_ hsame, hcredentials⟩
    exact StakingRouter.sameModules_setStakingModule rfl rfl
      (fun h => ⟨h.targetShare_le, h.fees_le⟩) id

theorem sameModules_updateExitedValidatorsCount {ρ : Type} {callees : RouterCallees ε ρ} {world : ρ}
    {s s' : StakingRouter} {env : RouterEnv} {ids counts : List Nat} {newly : Nat}
    (h : s.updateExitedValidatorsCountByStakingModule callees env ids counts world
      = .ok (s', newly)) :
    StakingRouter.SameModules s s' ∧ s'.withdrawalCredentials = s.withdrawalCredentials := by
  simp only [StakingRouter.updateExitedValidatorsCountByStakingModule, bind_eq_ok] at h
  obtain ⟨_, -, _, -, hloop⟩ := h
  exact sameModules_updateExitedValidatorsCountLoop hloop

/-- A report about operators is a call of the module's registry. -/
theorem reportExited_ok_cases {s : StakingRouter} {registryEnv : RegistryEnv} {env : RouterEnv}
    {id : Nat} {ids counts : Bytes} {world world' : ModuleWorld δ}
    (h : s.reportStakingModuleExitedValidatorsCountByNodeOperator
      (registryReportCallees getKeyOffset registryEnv depositInto) env id ids counts world
      = .ok world') :
    ∃ addr registry, RegistryAction.run (.updateExitedValidatorsCount ids counts) getKeyOffset
        registryEnv (world.registries addr) = .ok registry ∧ world' = world.set addr registry := by
  simp only [StakingRouter.reportStakingModuleExitedValidatorsCountByNodeOperator,
    StakingRouter.reportValidatorsCountByNodeOperator, registryReportCallees, bind_eq_ok,
    within_eq_ok, pure_eq_ok] at h
  obtain ⟨_, -, index, -, _, -, registry, hregistry, rfl⟩ := h
  exact ⟨_, registry, hregistry, rfl⟩

theorem reportStuck_ok_cases {s : StakingRouter} {registryEnv : RegistryEnv} {env : RouterEnv}
    {id : Nat} {ids counts : Bytes} {world world' : ModuleWorld δ}
    (h : s.reportStakingModuleStuckValidatorsCountByNodeOperator
      (registryReportCallees getKeyOffset registryEnv depositInto) env id ids counts world
      = .ok world') :
    ∃ addr registry, RegistryAction.run (.updateStuckValidatorsCount ids counts) getKeyOffset
        registryEnv (world.registries addr) = .ok registry ∧ world' = world.set addr registry := by
  simp only [StakingRouter.reportStakingModuleStuckValidatorsCountByNodeOperator,
    StakingRouter.reportValidatorsCountByNodeOperator, registryReportCallees, bind_eq_ok,
    within_eq_ok, pure_eq_ok] at h
  obtain ⟨_, -, index, -, _, -, registry, hregistry, rfl⟩ := h
  exact ⟨_, registry, hregistry, rfl⟩

/-- **Only management calls add modules or activate them.** -/
theorem Performs.sameModules {action : RouterAction}
    (h : Performs getKeyOffset depositInto x action x') (hmanage : action ≠ .manage) :
    StakingRouter.SameModules x.router x'.router := by
  cases h with
  | manage => exact absurd rfl hmanage
  | setWithdrawalCredentials hcall =>
    exact (StakingRouter.sameModules_of_setWithdrawalCredentials getKeyOffset hcall).1
  | deposit hcall =>
    obtain ⟨index, -, rfl, -, -⟩ := deposit_ok_cases hcall
    exact sameModules_noted _ _ _
  | updateExitedValidatorsCountByStakingModule hcall =>
    exact (sameModules_updateExitedValidatorsCount hcall).1
  | reportExitedByNodeOperator => exact .refl _
  | reportStuckByNodeOperator => exact .refl _
  | correct =>
    exact ⟨⟨rfl, rfl, rfl, fun _ => rfl, fun _ h => ⟨h.targetShare_le, h.fees_le⟩, fun _ => id⟩,
      fun _ => rfl⟩
  | registry => exact .refl _
  | other => exact ⟨⟨rfl, rfl, rfl, fun _ => rfl, fun _ => id, fun _ => id⟩, fun _ => rfl⟩

/-- **Registries are changed by calls of them only.** -/
theorem Performs.called {action : RouterAction}
    (h : Performs getKeyOffset depositInto x action x') :
    Called getKeyOffset x.world x'.world := by
  cases h with
  | manage => exact called_of_eq rfl
  | setWithdrawalCredentials hcall =>
    exact (StakingRouter.sameModules_of_setWithdrawalCredentials getKeyOffset hcall).2.2
  | deposit hcall => exact called_deposit hcall
  | updateExitedValidatorsCountByStakingModule => exact called_of_eq rfl
  | reportExitedByNodeOperator hcall =>
    obtain ⟨addr, registry, hrun, rfl⟩ := reportExited_ok_cases hcall
    exact called_update ⟨_, _, hrun⟩ rfl
  | reportStuckByNodeOperator hcall =>
    obtain ⟨addr, registry, hrun, rfl⟩ := reportStuck_ok_cases hcall
    exact called_update ⟨_, _, hrun⟩ rfl
  | correct => exact called_of_eq rfl
  | @registry _ env action _ hrun => exact called_update ⟨env, action, hrun⟩ rfl
  | other => exact called_of_eq rfl

theorem Performs.managed {action : RouterAction}
    (h : Performs getKeyOffset depositInto x action x') (hmanaged : x.router.Managed) :
    x'.router.Managed := by
  by_cases hmanage : action = .manage
  · subst hmanage
    cases h with
    | manage call hrun => exact hmanaged.run hrun
  · exact (h.sameModules hmanage).managed hmanaged

/-! ## The invariant -/

/-- No total of exited validators is above the deposits. -/
structure Covered (getKeyOffset : Nat → Nat → BitVec 256) (x : RouterSystem δ) : Prop where
  managed : x.router.Managed
  reached : x.world.Reached getKeyOffset
  exited_le : ∀ i < x.router.stakingModulesCount,
    (x.router.stakingModules i).exitedValidatorsCount
      ≤ x.world.depositedTotal (x.router.stakingModules i).stakingModuleAddress
  /-- The place of a module that will be added holds no count. -/
  unused : ∀ i, x.router.stakingModulesCount ≤ i →
    (x.router.stakingModules i).exitedValidatorsCount = 0

theorem Initial.covered (h : Initial getKeyOffset x) : Covered getKeyOffset x where
  managed := StakingRouter.managed_of_fresh h.fresh
  reached := h.reached
  exited_le i _ := by
    rw [h.exited i]
    exact Nat.zero_le _
  unused i _ := h.exited i

/-- The router may change everything but the counts, and the registries may be called. -/
theorem Covered.kept (h : Covered getKeyOffset x) (hmanaged : x'.router.Managed)
    (hsame : x.router.SameExited x'.router) (hcalled : Called getKeyOffset x.world x'.world) :
    Covered getKeyOffset x' ∧ x.router.Later x'.router := by
  obtain ⟨hlater, hexited⟩ := hsame
  refine ⟨⟨hmanaged, h.reached.called hcalled, fun i hi => ?_, fun i hi => ?_⟩, hlater⟩
  · rw [hexited i]
    by_cases hold : i < x.router.stakingModulesCount
    · rw [hlater.address i hold]
      exact (h.exited_le i hold).trans (hcalled.depositedTotal_le h.reached _)
    · rw [h.unused i (Nat.le_of_not_lt hold)]
      exact Nat.zero_le _
  · rw [hexited i]
    exact h.unused i (hlater.count_le.trans hi)

theorem Covered.raised (h : Covered getKeyOffset x) {router : StakingRouter} {newly newly' : Nat}
    (hraised : StakingRouter.Raised x.world.depositedTotal newly newly' x.router router) :
    Covered getKeyOffset { x with router := router } := by
  refine ⟨hraised.managed, h.reached, fun i hi => ?_, fun i hi => ?_⟩
  · have hlt : i < x.router.stakingModulesCount := hraised.count ▸ hi
    show (router.stakingModules i).exitedValidatorsCount
      ≤ x.world.depositedTotal (router.stakingModules i).stakingModuleAddress
    rw [hraised.later.address i hlt]
    rcases hraised.covered i with hsame | ⟨-, hle⟩
    · rw [hsame]
      exact h.exited_le i hlt
    · exact hle
  · have hle : x.router.stakingModulesCount ≤ i := hraised.count ▸ hi
    rcases hraised.covered i with hsame | ⟨hlt, -⟩
    · exact hsame.trans (h.unused i hle)
    · exact absurd hlt (Nat.not_lt.mpr hle)

/-- What a report of the router's own counts does. -/
theorem Covered.raised_of_update (h : Covered getKeyOffset x) {registryEnv : RegistryEnv}
    {env : RouterEnv} {stakingModuleIds exitedValidatorsCounts : List Nat} {router : StakingRouter}
    {newly : Nat}
    (hcall : x.router.updateExitedValidatorsCountByStakingModule
      (registryCallees getKeyOffset registryEnv depositInto) env stakingModuleIds
      exitedValidatorsCounts x.world = .ok (router, newly)) :
    StakingRouter.Raised x.world.depositedTotal 0 newly x.router router := by
  simp only [StakingRouter.updateExitedValidatorsCountByStakingModule, bind_eq_ok] at hcall
  obtain ⟨_, -, _, -, hloop⟩ := hcall
  refine StakingRouter.raised_updateExitedValidatorsCountLoop h.managed ?_ hloop
  intro addr summary hsummary
  rw [getStakingModuleSummary_eq h.reached] at hsummary
  cases hsummary
  rfl

/-- **No call breaks the active counts**, one case for each call. -/
theorem Covered.step (h : Covered getKeyOffset x) (hs : Step getKeyOffset depositInto x x') :
    Covered getKeyOffset x' ∧ x.router.Later x'.router := by
  obtain ⟨action, hcorrect, hperforms⟩ := hs
  have hmanaged := hperforms.managed h.managed
  have hcalled := hperforms.called
  have hrouter : x.router.SameExited x.router := (StakingRouter.SameModules.refl _).sameExited
    fun _ => rfl
  cases hperforms with
  | manage call hrun => exact h.kept hmanaged (StakingRouter.sameExited_of_run hrun) hcalled
  | setWithdrawalCredentials hcall =>
    have hsame := (StakingRouter.sameModules_of_setWithdrawalCredentials getKeyOffset hcall).2.1
    exact h.kept hmanaged hsame hcalled
  | deposit hcall =>
    obtain ⟨index, -, rfl, -, -⟩ := deposit_ok_cases hcall
    exact h.kept hmanaged (StakingRouter.sameExited_setStakingModule rfl rfl rfl) hcalled
  | updateExitedValidatorsCountByStakingModule hcall =>
    have hraised := h.raised_of_update hcall
    exact ⟨h.raised hraised, hraised.later⟩
  | reportExitedByNodeOperator => exact h.kept hmanaged hrouter hcalled
  | reportStuckByNodeOperator => exact h.kept hmanaged hrouter hcalled
  | correct => exact absurd rfl hcorrect
  | registry => exact h.kept hmanaged hrouter hcalled
  | other =>
    refine h.kept hmanaged ⟨⟨Nat.le_refl _, ?_, ?_, ?_⟩, fun _ => rfl⟩ hcalled
    · exact fun _ _ => rfl
    · exact fun _ _ => rfl
    · exact fun _ => Nat.le_refl _

theorem covered_of_reachable
    (h : Reachable (Initial getKeyOffset) (Step getKeyOffset depositInto) x) :
    Covered getKeyOffset x :=
  h.invariant (fun _ hinit => hinit.covered) fun _ _ hcovered hs => (hcovered.step hs).1

/-- The induction is over the steps that follow. -/
theorem Covered.later (h : Covered getKeyOffset x)
    (hlater : Reachable (· = x) (Step getKeyOffset depositInto) x') :
    Covered getKeyOffset x' ∧ x.router.Later x'.router := by
  induction hlater with
  | init heq =>
    subst heq
    exact ⟨h, .refl _⟩
  | step _ hs ih =>
    obtain ⟨hcovered, hstep⟩ := ih.1.step hs
    exact ⟨hcovered, ih.2.trans hstep⟩

/-! ## The active counts -/

theorem summaryOf_eq (h : Covered getKeyOffset x) {env : RegistryEnv} (i : Nat) :
    x.router.summaryOf (registryCallees getKeyOffset env depositInto) x.world i
      = ⟨x.world.exitedTotal (x.router.stakingModules i).stakingModuleAddress,
          x.world.depositedTotal (x.router.stakingModules i).stakingModuleAddress,
          (x.world.registries (x.router.stakingModules i).stakingModuleAddress).sumOver
            NodeOperatorsRegistry.depositable⟩ := by
  unfold StakingRouter.summaryOf
  rw [getStakingModuleSummary_eq h.reached]

theorem Covered.max_le (h : Covered getKeyOffset x) {i : Nat}
    (hi : i < x.router.stakingModulesCount) :
    max (x.world.exitedTotal (x.router.stakingModules i).stakingModuleAddress)
        (x.router.stakingModules i).exitedValidatorsCount
      ≤ x.world.depositedTotal (x.router.stakingModules i).stakingModuleAddress :=
  Nat.max_le.mpr ⟨exitedTotal_le h.reached, h.exited_le i hi⟩

theorem Covered.countable (h : Covered getKeyOffset x) {env : RegistryEnv} :
    ∀ i < x.router.stakingModulesCount,
      x.router.Countable (registryCallees getKeyOffset env depositInto) x.world i :=
  fun _ hi => ⟨_, getStakingModuleSummary_eq h.reached, h.max_le hi⟩

theorem Covered.activeValidatorsCount_eq (h : Covered getKeyOffset x) {env : RegistryEnv} (i : Nat) :
    x.router.activeValidatorsCount (registryCallees getKeyOffset env depositInto) x.world i
      = x.world.depositedTotal (x.router.stakingModules i).stakingModuleAddress -
        max (x.world.exitedTotal (x.router.stakingModules i).stakingModuleAddress)
          (x.router.stakingModules i).exitedValidatorsCount := by
  unfold StakingRouter.activeValidatorsCount
  rw [summaryOf_eq h]

theorem Covered.activeValidatorsCount_lt (h : Covered getKeyOffset x) {env : RegistryEnv} (i : Nat) :
    x.router.activeValidatorsCount (registryCallees getKeyOffset env depositInto) x.world i
      < 2 ^ 64 := by
  rw [h.activeValidatorsCount_eq]
  exact Nat.lt_of_le_of_lt (Nat.sub_le _ _) (depositedTotal_lt h.reached)

/-- There are at most 32 modules. -/
theorem Covered.totalActiveValidators_lt (h : Covered getKeyOffset x) {env : RegistryEnv} :
    x.router.totalActiveValidators (registryCallees getKeyOffset env depositInto) x.world
      < 2 ^ 256 := by
  have hcount := h.managed.count_le
  calc x.router.totalActiveValidators (registryCallees getKeyOffset env depositInto) x.world
      ≤ ∑ _i ∈ range x.router.stakingModulesCount, 2 ^ 64 :=
        sum_le_sum fun i _ => (h.activeValidatorsCount_lt i).le
    _ = x.router.stakingModulesCount * 2 ^ 64 := by
        rw [sum_const_nat fun _ _ => rfl, card_range]
    _ ≤ StakingRouter.MAX_STAKING_MODULES_COUNT * 2 ^ 64 := Nat.mul_le_mul_right _ hcount
    _ < 2 ^ 256 := by decide

theorem Covered.getStakingModuleActiveValidatorsCount_eq (h : Covered getKeyOffset x)
    {env : RegistryEnv} {id index : Nat}
    (hid : x.router.stakingModuleIndicesOneBased id = index + 1) :
    x.router.getStakingModuleActiveValidatorsCount
        (registryCallees getKeyOffset env depositInto) id x.world
      = .ok (x.router.activeValidatorsCount
          (registryCallees getKeyOffset env depositInto) x.world index) := by
  have hlt : index < x.router.stakingModulesCount := by
    have hle := h.managed.index_le id
    omega
  have hle := h.max_le hlt
  rw [Nat.max_comm] at hle
  unfold StakingRouter.getStakingModuleActiveValidatorsCount
  rw [StakingRouter.getStakingModuleIndexById_of hid, ok_bind]
  simp only
  rw [getStakingModuleSummary_eq h.reached, h.activeValidatorsCount_eq]
  simp only [within, ok_bind]
  rw [checkedSub_of hle, Nat.max_comm]

/--
**Exited counts never break active counts.** In every run of a router whose modules are registries,
neither the exited validators that the router has stored for a module nor those that the module has
counted are more than the module's deposits. So the active validators of every module can be counted:
the cache of all modules is loaded, the fee is distributed, and no allocation underflows.

In every run that follows, the modules stay what they are and no stored count becomes less; and each
report returns by how much the stored counts have grown together.
-/
theorem exited_counts_keep_active_counts
    (h : Reachable (Initial getKeyOffset) (Step getKeyOffset depositInto) x) :
    (∀ i < x.router.stakingModulesCount,
      (x.router.stakingModules i).exitedValidatorsCount
          ≤ x.world.depositedTotal (x.router.stakingModules i).stakingModuleAddress ∧
        x.world.exitedTotal (x.router.stakingModules i).stakingModuleAddress
          ≤ x.world.depositedTotal (x.router.stakingModules i).stakingModuleAddress) ∧
    (∀ env : RegistryEnv,
      (∀ i, x.router.activeValidatorsCount (registryCallees getKeyOffset env depositInto) x.world i
        = x.world.depositedTotal (x.router.stakingModules i).stakingModuleAddress -
          max (x.world.exitedTotal (x.router.stakingModules i).stakingModuleAddress)
            (x.router.stakingModules i).exitedValidatorsCount) ∧
      (∀ id index, x.router.stakingModuleIndicesOneBased id = index + 1 →
        x.router.getStakingModuleActiveValidatorsCount
            (registryCallees getKeyOffset env depositInto) id x.world
          = .ok (x.router.activeValidatorsCount
              (registryCallees getKeyOffset env depositInto) x.world index)) ∧
      (∃ cache,
        x.router.loadStakingModulesCache (registryCallees getKeyOffset env depositInto) x.world
          = .ok (x.router.totalActiveValidators
              (registryCallees getKeyOffset env depositInto) x.world, cache) ∧
        x.router.getStakingRewardsDistribution
            (registryCallees getKeyOffset env depositInto) x.world
          = .ok (StakingRouter.distributionOf (x.router.totalActiveValidators
              (registryCallees getKeyOffset env depositInto) x.world) cache)) ∧
      ∀ id value,
        x.router.getStakingModuleMaxDepositsCount (registryCallees getKeyOffset env depositInto)
          x.world id value ≠ .error (.panic .underflow)) ∧
    (∀ x', Reachable (· = x) (Step getKeyOffset depositInto) x' → x.router.Later x'.router) ∧
    ∀ registryEnv env stakingModuleIds exitedValidatorsCounts router newly,
      x.router.updateExitedValidatorsCountByStakingModule
          (registryCallees getKeyOffset registryEnv depositInto) env stakingModuleIds
          exitedValidatorsCounts x.world = .ok (router, newly) →
        router.exitedSum = x.router.exitedSum + newly := by
  have hcovered := covered_of_reachable h
  refine ⟨fun i hi => ⟨hcovered.exited_le i hi, exitedTotal_le hcovered.reached⟩, fun env => ?_,
    fun x' hlater => (hcovered.later hlater).2, ?_⟩
  · have hcountable : ∀ i < x.router.stakingModulesCount,
        x.router.Countable (registryCallees getKeyOffset env depositInto) x.world i :=
      hcovered.countable
    obtain ⟨cache, hload⟩ := StakingRouter.exists_loadStakingModulesCache hcountable
      hcovered.totalActiveValidators_lt
    refine ⟨hcovered.activeValidatorsCount_eq, ?_, ⟨cache, hload, ?_⟩, fun id value herror => ?_⟩
    · intro id index hid
      exact hcovered.getStakingModuleActiveValidatorsCount_eq hid
    · exact StakingRouter.getStakingRewardsDistribution_eq hcovered.managed hload
        fun i _ => hcovered.activeValidatorsCount_lt i
    · exact (StakingRouter.ensures_getStakingModuleMaxDepositsCount hcovered.managed hload id
        value).of_error herror rfl
  · intro registryEnv env stakingModuleIds exitedValidatorsCounts router newly hcall
    exact (hcovered.raised_of_update hcall).sum

/-! A module is added and gets two validators, of which one exits. -/

def exampleNewRouter : StakingRouter where
  catalist := 1
  withdrawalCredentials := 5
  stakingModules _ := ⟨0, 0, 0, 0, 0, .active, [], 0, 0, 0⟩
  stakingModulesCount := 0
  stakingModuleIndicesOneBased _ := 0
  lastStakingModuleId := 0
  hasRole _ _ := true
  balance := 0

/-- All registries are alike. -/
def exampleNewSystem (registry : NodeOperatorsRegistry) : RouterSystem Nat :=
  ⟨exampleNewRouter, ⟨fun _ => registry, 0⟩⟩

def exampleModuleCallees : RouterCallees (CalleeError Unit) (ModuleWorld Nat) :=
  registryCallees NodeOperatorsRegistry.exampleKeyOffset NodeOperatorsRegistry.exampleRegistryEnv
    fun d _ _ _ => .ok (d + 1)

def exampleRouterEnv (value : Nat) : RouterEnv :=
  ⟨⟨1, value, 30, exampleDepositTime_pos⟩, 7⟩

theorem exampleNewSystem_reachable {registry : NodeOperatorsRegistry} {router : StakingRouter}
    {deposited : StakingRouter × ModuleWorld Nat} {reported : StakingRouter × Nat}
    (hregistry : Reachable NodeOperatorsRegistry.Initial
      (NodeOperatorsRegistry.Step NodeOperatorsRegistry.exampleKeyOffset) registry)
    (hadd : (exampleNewRouter.addStakingModule (exampleRouterEnv 0) [65] 21 10000 500 500 :
      Call (RouterError Unit) StakingRouter) = .ok router)
    (hdeposit : router.deposit exampleModuleCallees (exampleRouterEnv (64 * 10 ^ 18)) 2 1 []
      (exampleNewSystem registry).world = .ok deposited)
    (hreport : deposited.1.updateExitedValidatorsCountByStakingModule exampleModuleCallees
      (exampleRouterEnv 0) [1] [1] deposited.2 = .ok reported) :
    Reachable (Initial NodeOperatorsRegistry.exampleKeyOffset)
      (Step (ε := Unit) NodeOperatorsRegistry.exampleKeyOffset fun d _ _ _ => .ok (d + 1))
      ⟨reported.1, deposited.2⟩ := by
  have hinit : Initial NodeOperatorsRegistry.exampleKeyOffset (exampleNewSystem registry) :=
    ⟨⟨rfl, rfl, fun _ => rfl⟩, fun _ => rfl, fun _ => hregistry⟩
  have hadded : Reachable (Initial NodeOperatorsRegistry.exampleKeyOffset)
      (Step (ε := Unit) NodeOperatorsRegistry.exampleKeyOffset fun d _ _ _ => .ok (d + 1))
      { exampleNewSystem registry with router := router } :=
    .step (.init hinit) ⟨.manage, by simp, .manage (.addStakingModule _ _ _ _ _) hadd⟩
  exact (hadded.step ⟨.deposit 2 1, by simp, .deposit hdeposit⟩).step
    ⟨.report, by simp, .updateExitedValidatorsCountByStakingModule hreport⟩

def exampleOneModule : StakingRouter :=
  result (exampleNewRouter.addStakingModule (exampleRouterEnv 0) [65] 21 10000 500 500 :
    Call (RouterError Unit) StakingRouter) (by decide +kernel)

def exampleDeposited : StakingRouter × ModuleWorld Nat :=
  result (exampleOneModule.deposit exampleModuleCallees (exampleRouterEnv (64 * 10 ^ 18)) 2 1 []
    (exampleNewSystem NodeOperatorsRegistry.exampleRegistry).world) (by decide +kernel)

def exampleReported : StakingRouter × Nat :=
  result (exampleDeposited.1.updateExitedValidatorsCountByStakingModule exampleModuleCallees
    (exampleRouterEnv 0) [1] [1] exampleDeposited.2) (by decide +kernel)

/-- Then the id is reported twice, first with the count that is stored already. -/
def exampleReportedTwice : StakingRouter × Nat :=
  result (exampleReported.1.updateExitedValidatorsCountByStakingModule exampleModuleCallees
    (exampleRouterEnv 0) [1, 1] [1, 2] exampleDeposited.2) (by decide +kernel)

theorem reachable_exampleReported :
    Reachable (Initial NodeOperatorsRegistry.exampleKeyOffset)
      (Step (ε := Unit) NodeOperatorsRegistry.exampleKeyOffset fun d _ _ _ => .ok (d + 1))
      ⟨exampleReported.1, exampleDeposited.2⟩ :=
  exampleNewSystem_reachable
    (NodeOperatorsRegistry.reachable_runAll
      (.init NodeOperatorsRegistry.initial_exampleInitialRegistry)
      NodeOperatorsRegistry.runAll_exampleRegistry)
    (eq_ok_result _ (by decide +kernel)) (eq_ok_result _ (by decide +kernel))
    (eq_ok_result _ (by decide +kernel))

theorem exited_counts_keep_active_counts_reported_twice :
    exampleReported.1.getStakingModuleActiveValidatorsCount exampleModuleCallees 1
        exampleDeposited.2 = .ok 1 ∧
      exampleReportedTwice.1.exitedSum = exampleReported.1.exitedSum + 1 := by
  have hindex : exampleReported.1.stakingModuleIndicesOneBased 1 = 0 + 1 := by decide +kernel
  have hcount : exampleReported.1.activeValidatorsCount exampleModuleCallees exampleDeposited.2 0
      = 1 := by decide +kernel
  have hnewly : exampleReportedTwice.2 = 1 := by decide +kernel
  have hcall : exampleReported.1.updateExitedValidatorsCountByStakingModule exampleModuleCallees
      (exampleRouterEnv 0) [1, 1] [1, 2] exampleDeposited.2
      = .ok exampleReportedTwice := eq_ok_result _ (by decide +kernel)
  obtain ⟨-, hcounts, -, hreports⟩ := exited_counts_keep_active_counts reachable_exampleReported
  generalize exampleReportedTwice = twice at *
  generalize exampleReported = reported at *
  generalize exampleDeposited = deposited at *
  obtain ⟨-, hactive, -⟩ := hcounts NodeOperatorsRegistry.exampleRegistryEnv
  refine ⟨(hactive 1 0 hindex).trans (congrArg _ hcount), ?_⟩
  rw [← hnewly]
  exact hreports _ _ _ _ _ _ hcall

end RouterSystem

end Catalist
