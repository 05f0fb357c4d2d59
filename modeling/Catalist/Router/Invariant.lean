import Catalist.Lib.Transition
import Catalist.Router.Allocation

/-!
# The modules of the router

In every run the modules are registered under distinct ids, and their shares and fees are at most
100 percent.
-/

namespace Catalist

open Solidity Transition

/-- The calls that add modules and change them. -/
inductive ManagementCall where
  | addStakingModule (name : Bytes) (stakingModuleAddress : Address)
      (targetShare stakingModuleFee treasuryFee : Nat)
  | updateStakingModule (stakingModuleId targetShare stakingModuleFee treasuryFee : Nat)
  | setStakingModuleStatus (stakingModuleId : Nat) (status : StakingModuleStatus)
  | pauseStakingModule (stakingModuleId : Nat)
  | resumeStakingModule (stakingModuleId : Nat)

namespace StakingRouter

variable {ε : Type} {s s' : StakingRouter} {env : RouterEnv} {call : ManagementCall} {id index : Nat}

/-- A router without modules. -/
structure Fresh (s : StakingRouter) : Prop where
  stakingModulesCount : s.stakingModulesCount = 0
  lastStakingModuleId : s.lastStakingModuleId = 0
  indices : ∀ id, s.stakingModuleIndicesOneBased id = 0

def run (s : StakingRouter) (env : RouterEnv) : ManagementCall → Call (RouterError ε) StakingRouter
  | .addStakingModule name addr targetShare fee treasuryFee =>
    s.addStakingModule env name addr targetShare fee treasuryFee
  | .updateStakingModule id targetShare fee treasuryFee =>
    s.updateStakingModule env id targetShare fee treasuryFee
  | .setStakingModuleStatus id status => s.setStakingModuleStatus env id status
  | .pauseStakingModule id => s.pauseStakingModule env id
  | .resumeStakingModule id => s.resumeStakingModule env id

/-- The calls that a run is made of. -/
inductive RouterStep : StakingRouter → StakingRouter → Prop where
  | manage {s s' : StakingRouter} {env : RouterEnv} (call : ManagementCall) :
      (s.run env call : Call (RouterError Unit) StakingRouter) = .ok s' → RouterStep s s'
  /--
  Deposits and reports of exited validators, and changes of roles and credentials, are free to come in
  between.
  -/
  | other {s : StakingRouter} {exited depositAt depositBlock : Nat → Nat} {balance : Nat}
      {withdrawalCredentials : BitVec 256} {hasRole : RouterRole → Address → Bool} :
      RouterStep s { s with
        stakingModules := fun i => { s.stakingModules i with
          exitedValidatorsCount := exited i
          lastDepositAt := depositAt i
          lastDepositBlock := depositBlock i }
        balance := balance
        withdrawalCredentials := withdrawalCredentials
        hasRole := hasRole }

/-! ## What the calls do -/

theorem checkShares_ok_cases {targetShare fee treasuryFee : Nat} {u : Unit}
    (h : (checkShares targetShare fee treasuryFee : Call (RouterError ε) Unit) = .ok u) :
    targetShare ≤ TOTAL_BASIS_POINTS ∧ fee + treasuryFee ≤ TOTAL_BASIS_POINTS := by
  simp only [checkShares, bind_eq_ok, require_eq_ok, checkedAdd_eq_ok] at h
  obtain ⟨_, hshare, _, ⟨-, rfl⟩, hfees⟩ := h
  exact ⟨hshare, hfees⟩

theorem getStakingModuleIndexById_ok_cases
    (h : (s.getStakingModuleIndexById id : Call (RouterError ε) Nat) = .ok index) :
    s.stakingModuleIndicesOneBased id = index + 1 := by
  simp only [getStakingModuleIndexById, bind_eq_ok, require_eq_ok, pure_eq_ok] at h
  obtain ⟨_, hid, rfl⟩ := h
  omega

theorem getStakingModuleIndexById_of (h : s.stakingModuleIndicesOneBased id = index + 1) :
    (s.getStakingModuleIndexById id : Call (RouterError ε) Nat) = .ok index := by
  have hne : index + 1 ≠ 0 := Nat.succ_ne_zero index
  unfold getStakingModuleIndexById
  simp only [h]
  rw [require_of hne]
  rfl

/-- The data of a module that is checked when it is set. -/
structure SharesChecked (m : StakingModule) : Prop where
  targetShare_le : m.targetShare ≤ TOTAL_BASIS_POINTS
  fees_le : m.stakingModuleFee + m.treasuryFee ≤ TOTAL_BASIS_POINTS

/-- The module `m` was added behind the others. -/
structure Added (s : StakingRouter) (m : StakingModule) (s' : StakingRouter) : Prop where
  count_lt : s.stakingModulesCount < MAX_STAKING_MODULES_COUNT
  id_lt : s.lastStakingModuleId % 2 ^ 24 + 1 < 2 ^ 24
  id : m.id = s.lastStakingModuleId % 2 ^ 24 + 1
  address_ne : ∀ i < s.stakingModulesCount,
    m.stakingModuleAddress ≠ (s.stakingModules i).stakingModuleAddress
  exitedValidatorsCount : m.exitedValidatorsCount
    = (s.stakingModules s.stakingModulesCount).exitedValidatorsCount
  checked : SharesChecked m
  router : s' = { s with
    stakingModules := Function.update s.stakingModules s.stakingModulesCount m
    stakingModuleIndicesOneBased := Function.update s.stakingModuleIndicesOneBased
      (s.lastStakingModuleId % 2 ^ 24 + 1) (s.stakingModulesCount + 1)
    lastStakingModuleId := s.lastStakingModuleId % 2 ^ 24 + 1
    stakingModulesCount := s.stakingModulesCount + 1 }

theorem addStakingModule_ok_cases {name : Bytes} {addr : Address}
    {targetShare fee treasuryFee : Nat}
    (h : (s.addStakingModule env name addr targetShare fee treasuryFee :
      Call (RouterError ε) StakingRouter) = .ok s') : ∃ m, Added s m s' := by
  simp only [addStakingModule, bind_eq_ok, require_eq_ok, checkedAdd_eq_ok, pure_eq_ok] at h
  obtain ⟨_, -, _, hshares, _, -, _, -, _, hcount, _, hnew, _, ⟨hfits, rfl⟩, rfl⟩ := h
  obtain ⟨hshare, hfees⟩ := checkShares_ok_cases hshares
  refine ⟨_, hcount, hfits, ?_, hnew, ?_, ⟨?_, ?_⟩, rfl⟩
  · rfl
  · rfl
  · exact (Nat.mod_le _ _).trans hshare
  · exact (Nat.add_le_add (Nat.mod_le _ _) (Nat.mod_le _ _)).trans hfees

/-- The module that is registered at an index was changed, under its id and address. -/
structure Changed (s : StakingRouter) (index : Nat) (m : StakingModule) (s' : StakingRouter) :
    Prop where
  registered : ∃ id, s.stakingModuleIndicesOneBased id = index + 1
  id : m.id = (s.stakingModules index).id
  address : m.stakingModuleAddress = (s.stakingModules index).stakingModuleAddress
  exitedValidatorsCount : m.exitedValidatorsCount = (s.stakingModules index).exitedValidatorsCount
  checked : SharesChecked (s.stakingModules index) → SharesChecked m
  router : s' = s.setStakingModule index m

theorem updateStakingModule_ok_cases {targetShare fee treasuryFee : Nat}
    (h : (s.updateStakingModule env id targetShare fee treasuryFee :
      Call (RouterError ε) StakingRouter) = .ok s') :
    ∃ index m, Changed s index m s' ∧ m.status = (s.stakingModules index).status := by
  simp only [updateStakingModule, bind_eq_ok, pure_eq_ok] at h
  obtain ⟨_, -, _, hshares, index, hindex, rfl⟩ := h
  obtain ⟨hshare, hfees⟩ := checkShares_ok_cases hshares
  refine ⟨index, _, ⟨⟨id, getStakingModuleIndexById_ok_cases hindex⟩, ?_, ?_, ?_,
    fun _ => ⟨?_, ?_⟩, rfl⟩, ?_⟩
  · rfl
  · rfl
  · rfl
  · exact (Nat.mod_le _ _).trans hshare
  · exact (Nat.add_le_add (Nat.mod_le _ _) (Nat.mod_le _ _)).trans hfees
  · rfl

theorem setStatus_eq (s : StakingRouter) (index : Nat) (status : StakingModuleStatus) :
    s.setStatus index status
      = s.setStakingModule index { s.stakingModules index with status := status } := by
  unfold setStatus
  split
  · rfl
  · next heq =>
    rw [not_not] at heq
    rw [← heq]
    unfold setStakingModule
    rw [Function.update_eq_self]

theorem changed_setStatus (hindex : s.stakingModuleIndicesOneBased id = index + 1)
    (status : StakingModuleStatus) :
    Changed s index { s.stakingModules index with status := status } (s.setStatus index status) :=
  ⟨⟨id, hindex⟩, rfl, rfl, rfl, fun h => ⟨h.targetShare_le, h.fees_le⟩, setStatus_eq s index status⟩

theorem setStakingModuleStatus_ok_cases {status : StakingModuleStatus}
    (h : (s.setStakingModuleStatus env id status : Call (RouterError ε) StakingRouter) = .ok s') :
    s.hasRole .stakingModuleManage env.sender = true ∧
    ∃ index, s.stakingModuleIndicesOneBased id = index + 1 ∧ s' = s.setStatus index status := by
  simp only [setStakingModuleStatus, bind_eq_ok, onlyRole, require_eq_ok, pure_eq_ok] at h
  obtain ⟨_, hrole, index, hindex, _, -, rfl⟩ := h
  exact ⟨hrole, index, getStakingModuleIndexById_ok_cases hindex, rfl⟩

theorem pauseStakingModule_ok_cases
    (h : (s.pauseStakingModule env id : Call (RouterError ε) StakingRouter) = .ok s') :
    ∃ index, s.stakingModuleIndicesOneBased id = index + 1 ∧
      s' = s.setStatus index .depositsPaused := by
  simp only [pauseStakingModule, bind_eq_ok, pure_eq_ok] at h
  obtain ⟨_, -, index, hindex, _, -, rfl⟩ := h
  exact ⟨index, getStakingModuleIndexById_ok_cases hindex, rfl⟩

theorem resumeStakingModule_ok_cases
    (h : (s.resumeStakingModule env id : Call (RouterError ε) StakingRouter) = .ok s') :
    s.hasRole .stakingModuleResume env.sender = true ∧
    ∃ index, s.stakingModuleIndicesOneBased id = index + 1 ∧ s' = s.setStatus index .active := by
  simp only [resumeStakingModule, bind_eq_ok, onlyRole, require_eq_ok, pure_eq_ok] at h
  obtain ⟨_, hrole, index, hindex, _, -, rfl⟩ := h
  exact ⟨hrole, index, getStakingModuleIndexById_ok_cases hindex, rfl⟩

/-- **What a management call does**: it adds a module, or changes one in its place. -/
theorem run_ok_cases (h : (s.run env call : Call (RouterError ε) StakingRouter) = .ok s') :
    (∃ m, Added s m s') ∨ ∃ index m, Changed s index m s' := by
  cases call with
  | addStakingModule => exact .inl (addStakingModule_ok_cases h)
  | updateStakingModule =>
    obtain ⟨index, m, hchanged, -⟩ := updateStakingModule_ok_cases h
    exact .inr ⟨index, m, hchanged⟩
  | setStakingModuleStatus =>
    obtain ⟨-, index, hindex, rfl⟩ := setStakingModuleStatus_ok_cases h
    exact .inr ⟨index, _, changed_setStatus hindex _⟩
  | pauseStakingModule =>
    obtain ⟨index, hindex, rfl⟩ := pauseStakingModule_ok_cases h
    exact .inr ⟨index, _, changed_setStatus hindex _⟩
  | resumeStakingModule =>
    obtain ⟨-, index, hindex, rfl⟩ := resumeStakingModule_ok_cases h
    exact .inr ⟨index, _, changed_setStatus hindex _⟩

/-! ## The invariant -/

/-- The modules are registered under the ids they were given, and their numbers were checked. -/
structure Managed (s : StakingRouter) : Prop where
  count_le : s.stakingModulesCount ≤ MAX_STAKING_MODULES_COUNT
  lastId_lt : s.lastStakingModuleId < 2 ^ 24
  id_le : ∀ i < s.stakingModulesCount, (s.stakingModules i).id ≤ s.lastStakingModuleId
  registered : s.Registered
  index_le : ∀ id, s.stakingModuleIndicesOneBased id ≤ s.stakingModulesCount
  checked : ∀ i < s.stakingModulesCount, SharesChecked (s.stakingModules i)

theorem managed_of_fresh (h : Fresh s) : Managed s := by
  have hnone : ∀ i, ¬ i < s.stakingModulesCount := by
    intro i hi
    rw [h.stakingModulesCount] at hi
    exact Nat.not_lt_zero i hi
  refine ⟨?_, ?_, fun i hi => absurd hi (hnone i), fun i hi => absurd hi (hnone i), fun id => ?_,
    fun i hi => absurd hi (hnone i)⟩
  · rw [h.stakingModulesCount]
    exact Nat.zero_le _
  · rw [h.lastStakingModuleId]
    decide
  · rw [h.indices id]
    exact Nat.zero_le _

theorem Managed.add (h : Managed s) {m : StakingModule} (hid : m.id = s.lastStakingModuleId + 1)
    (hm : SharesChecked m) (hcount : s.stakingModulesCount < MAX_STAKING_MODULES_COUNT)
    (hfits : s.lastStakingModuleId + 1 < 2 ^ 24) :
    Managed { s with
      stakingModules := Function.update s.stakingModules s.stakingModulesCount m
      stakingModuleIndicesOneBased := Function.update s.stakingModuleIndicesOneBased
        (s.lastStakingModuleId + 1) (s.stakingModulesCount + 1)
      lastStakingModuleId := s.lastStakingModuleId + 1
      stakingModulesCount := s.stakingModulesCount + 1 } := by
  have hold : ∀ i < s.stakingModulesCount,
      Function.update s.stakingModules s.stakingModulesCount m i = s.stakingModules i :=
    fun i hi => Function.update_of_ne hi.ne _ _
  refine ⟨hcount, hfits, fun i hi => ?_, fun i hi => ?_, fun id => ?_, fun i hi => ?_⟩
  · simp only
    rcases Nat.lt_succ_iff_lt_or_eq.mp hi with hi | rfl
    · rw [hold i hi]
      exact (h.id_le i hi).trans (Nat.le_succ _)
    · rw [Function.update_self, hid]
  · simp only
    rcases Nat.lt_succ_iff_lt_or_eq.mp hi with hi | rfl
    · -- an id that was given before is not the new one
      have hle := h.id_le i hi
      rw [hold i hi, Function.update_of_ne (by omega)]
      exact h.registered i hi
    · rw [Function.update_self, hid, Function.update_self]
  · simp only
    by_cases hnew : id = s.lastStakingModuleId + 1
    · rw [hnew, Function.update_self]
    · rw [Function.update_of_ne hnew]
      exact (h.index_le id).trans (Nat.le_succ _)
  · simp only
    rcases Nat.lt_succ_iff_lt_or_eq.mp hi with hi | rfl
    · rw [hold i hi]
      exact h.checked i hi
    · rw [Function.update_self]
      exact hm

theorem Managed.set (h : Managed s) {m : StakingModule} (hid : m.id = (s.stakingModules index).id)
    (hm : index < s.stakingModulesCount → SharesChecked m) :
    Managed (s.setStakingModule index m) := by
  have hids : ∀ i, ((s.setStakingModule index m).stakingModules i).id = (s.stakingModules i).id := by
    intro i
    unfold setStakingModule
    by_cases hi : i = index
    · subst hi
      simp only [Function.update_self]
      exact hid
    · simp only [Function.update_of_ne hi]
  refine ⟨h.count_le, h.lastId_lt, fun i hi => ?_, fun i hi => ?_, h.index_le, fun i hi => ?_⟩
  · rw [hids i]
    exact h.id_le i hi
  · rw [hids i]
    exact h.registered i hi
  · unfold setStakingModule
    by_cases hsame : i = index
    · subst hsame
      simp only [Function.update_self]
      exact hm hi
    · simp only [Function.update_of_ne hsame]
      exact h.checked i hi

theorem Managed.changed (h : Managed s) {m : StakingModule} (hchanged : Changed s index m s') :
    Managed s' := by
  rw [hchanged.router]
  exact h.set hchanged.id fun hi => hchanged.checked (h.checked index hi)

theorem Managed.run (h : Managed s)
    (hrun : (s.run env call : Call (RouterError ε) StakingRouter) = .ok s') : Managed s' := by
  rcases run_ok_cases hrun with ⟨m, hadded⟩ | ⟨index, m, hchanged⟩
  · obtain ⟨hcount, hfits, hid, -, -, hm, rfl⟩ := hadded
    rw [Nat.mod_eq_of_lt h.lastId_lt] at hid hfits ⊢
    exact h.add hid hm hcount hfits
  · exact h.changed hchanged

theorem Managed.step (h : Managed s) (hs : RouterStep s s') : Managed s' := by
  cases hs with
  | manage call hrun => exact h.run hrun
  | other =>
    refine ⟨h.count_le, h.lastId_lt, h.id_le, h.registered, h.index_le, fun i hi => ?_⟩
    exact ⟨(h.checked i hi).targetShare_le, (h.checked i hi).fees_le⟩

/-- In every run the modules are well managed. -/
theorem managed_of_reachable (h : Reachable Fresh RouterStep s) : Managed s :=
  h.invariant (fun _ => managed_of_fresh) fun _ _ hm hs => hm.step hs

/-! ## Calls that manage nothing -/

/-- Nothing is added, and no module is activated. -/
structure Quiet (s s' : StakingRouter) : Prop where
  count : s'.stakingModulesCount = s.stakingModulesCount
  lastId : s'.lastStakingModuleId = s.lastStakingModuleId
  indices : s'.stakingModuleIndicesOneBased = s.stakingModuleIndicesOneBased
  id : ∀ i, (s'.stakingModules i).id = (s.stakingModules i).id
  checked : ∀ i, SharesChecked (s.stakingModules i) → SharesChecked (s'.stakingModules i)
  status : ∀ i, (s'.stakingModules i).status = .active → (s.stakingModules i).status = .active

theorem Quiet.managed (h : Quiet s s') (hmanaged : s.Managed) : s'.Managed where
  count_le := by
    rw [h.count]
    exact hmanaged.count_le
  lastId_lt := by
    rw [h.lastId]
    exact hmanaged.lastId_lt
  id_le i hi := by
    rw [h.count] at hi
    rw [h.id, h.lastId]
    exact hmanaged.id_le i hi
  registered i hi := by
    rw [h.count] at hi
    rw [h.id, h.indices]
    exact hmanaged.registered i hi
  index_le id := by
    rw [h.indices, h.count]
    exact hmanaged.index_le id
  checked i hi := by
    rw [h.count] at hi
    exact h.checked i (hmanaged.checked i hi)

/-- The modules have kept their addresses, too. -/
structure SameModules (s s' : StakingRouter) : Prop extends Quiet s s' where
  address : ∀ i, (s'.stakingModules i).stakingModuleAddress
    = (s.stakingModules i).stakingModuleAddress

theorem SameModules.refl (s : StakingRouter) : SameModules s s :=
  ⟨⟨rfl, rfl, rfl, fun _ => rfl, fun _ => id, fun _ => id⟩, fun _ => rfl⟩

theorem SameModules.trans {s'' : StakingRouter} (h : SameModules s s') (h' : SameModules s' s'') :
    SameModules s s'' where
  count := h'.count.trans h.count
  lastId := h'.lastId.trans h.lastId
  indices := h'.indices.trans h.indices
  id i := (h'.id i).trans (h.id i)
  checked i hi := h'.checked i (h.checked i hi)
  status i hi := h.status i (h'.status i hi)
  address i := (h'.address i).trans (h.address i)

/-- A module is written to its place, under its id and address, and is not activated. -/
theorem sameModules_setStakingModule {m : StakingModule} (hid : m.id = (s.stakingModules index).id)
    (haddress : m.stakingModuleAddress = (s.stakingModules index).stakingModuleAddress)
    (hchecked : SharesChecked (s.stakingModules index) → SharesChecked m)
    (hstatus : m.status = .active → (s.stakingModules index).status = .active) :
    SameModules s (s.setStakingModule index m) := by
  unfold setStakingModule
  refine ⟨⟨rfl, rfl, rfl, fun i => ?_, fun i => ?_, fun i => ?_⟩, fun i => ?_⟩
  all_goals
    simp only
    by_cases hi : i = index
    · subst hi
      rw [Function.update_self]
      assumption
    · rw [Function.update_of_ne hi]
      try exact id

end StakingRouter

end Catalist
