import Catalist.Guardians.GuardedRuns

/-!
# Pausing deposits

`pauseDeposits` and `unpauseDeposits` of `DepositSecurityModule.sol`. A single guardian closes a
module for deposits, by a call or by a signature that everyone may present for a number of blocks.
Owners open it again.

A module that was paused stays closed, whatever else happens, until someone with the right to do so
activates it (`paused_until_activated`).
-/

namespace Catalist

open Solidity ByteBuffer Transition Certificate

namespace StakingRouter

variable {ε : Type} {s s' : StakingRouter} {env : RouterEnv} {id index : Nat}

def getStakingModuleIsDepositsPaused (s : StakingRouter) (stakingModuleId : Nat) :
    Call (RouterError ε) Bool := do
  let index ← s.getStakingModuleIndexById stakingModuleId
  return decide ((s.stakingModules index).status = .depositsPaused)

theorem exists_index_of_isActive {isActive : Bool}
    (h : (s.getStakingModuleIsActive id : Call (RouterError ε) Bool) = .ok isActive) :
    ∃ index, s.stakingModuleIndicesOneBased id = index + 1 := by
  simp only [getStakingModuleIsActive, bind_eq_ok] at h
  obtain ⟨index, hindex, -⟩ := h
  exact ⟨index, getStakingModuleIndexById_ok_cases hindex⟩

/-- What only holds for registered modules can be shown for a given place. -/
theorem iff_exists_index {P : Prop} {Q : Nat → Prop}
    (hregistered : P → ∃ index, s.stakingModuleIndicesOneBased id = index + 1)
    (h : ∀ index, s.stakingModuleIndicesOneBased id = index + 1 → (P ↔ Q index)) :
    P ↔ ∃ index, s.stakingModuleIndicesOneBased id = index + 1 ∧ Q index := by
  constructor
  · intro hP
    obtain ⟨index, hindex⟩ := hregistered hP
    exact ⟨index, hindex, (h index hindex).mp hP⟩
  · rintro ⟨index, hindex, hQ⟩
    exact (h index hindex).mpr hQ

theorem getStakingModuleIsDepositsPaused_of (h : s.stakingModuleIndicesOneBased id = index + 1) :
    (s.getStakingModuleIsDepositsPaused id : Call (RouterError ε) Bool)
      = .ok (decide ((s.stakingModules index).status = .depositsPaused)) := by
  rw [getStakingModuleIsDepositsPaused, getStakingModuleIndexById_of h]
  rfl

end StakingRouter

/-! ## Closed modules -/

namespace StakingRouter

variable {ε : Type} {s s' : StakingRouter} {env : RouterEnv} {call : ManagementCall} {id index : Nat}

/-- A place is only found under the id that is stored there. -/
def Identified (s : StakingRouter) : Prop :=
  ∀ id i, s.stakingModuleIndicesOneBased id = i + 1 → (s.stakingModules i).id = id

theorem Identified.set (h : s.Identified) {m : StakingModule}
    (hid : m.id = (s.stakingModules index).id) : (s.setStakingModule index m).Identified := by
  intro id i hi
  unfold setStakingModule
  by_cases hsame : i = index
  · subst hsame
    simp only [Function.update_self]
    exact hid.trans (h id i hi)
  · simp only [Function.update_of_ne hsame]
    exact h id i hi

theorem Identified.setStatus (h : s.Identified) (status : StakingModuleStatus) :
    (s.setStatus index status).Identified := by
  unfold StakingRouter.setStatus
  split
  · exact h.set rfl
  · exact h

theorem Identified.add (h : s.Identified) (hmanaged : s.Managed) {m : StakingModule}
    {newId : Nat} (hm : m.id = newId) :
    Identified { s with
      stakingModules := Function.update s.stakingModules s.stakingModulesCount m
      stakingModuleIndicesOneBased := Function.update s.stakingModuleIndicesOneBased
        newId (s.stakingModulesCount + 1)
      lastStakingModuleId := newId
      stakingModulesCount := s.stakingModulesCount + 1 } := by
  intro id i hi
  simp only at hi ⊢
  by_cases hnew : id = newId
  · subst hnew
    rw [Function.update_self] at hi
    obtain rfl : s.stakingModulesCount = i := Nat.succ_injective hi
    rw [Function.update_self, hm]
  · rw [Function.update_of_ne hnew] at hi
    have hle := hmanaged.index_le id
    rw [Function.update_of_ne (by omega)]
    exact h id i hi

theorem Identified.run (h : s.Identified) (hmanaged : s.Managed)
    (hrun : (s.run env call : Call (RouterError ε) _) = .ok s') : s'.Identified := by
  rcases run_ok_cases hrun with ⟨m, hadded⟩ | ⟨index, m, hchanged⟩
  · rw [hadded.router]
    exact h.add hmanaged hadded.id
  · rw [hchanged.router]
    exact h.set hchanged.id

/-- The module with this id takes no deposits. -/
def Closed (s : StakingRouter) (id : Nat) : Prop :=
  ∃ index, s.stakingModuleIndicesOneBased id = index + 1 ∧
    (s.stakingModules index).status ≠ .active

theorem status_setStatus_self (s : StakingRouter) (index : Nat) (status : StakingModuleStatus) :
    ((s.setStatus index status).stakingModules index).status = status := by
  unfold setStatus
  split
  · rw [setStakingModule]
    simp only [Function.update_self]
  · next hsame => exact not_not.mp hsame

theorem stakingModules_setStatus_of_ne {i : Nat} (hne : i ≠ index) (status : StakingModuleStatus) :
    (s.setStatus index status).stakingModules i = s.stakingModules i := by
  unfold setStatus
  split
  · exact Function.update_of_ne hne _ _
  · rfl

theorem indices_setStatus (s : StakingRouter) (index : Nat) (status : StakingModuleStatus) :
    (s.setStatus index status).stakingModuleIndicesOneBased = s.stakingModuleIndicesOneBased := by
  unfold setStatus
  split <;> rfl

theorem closed_setStatus (hindex : s.stakingModuleIndicesOneBased id = index + 1)
    {status : StakingModuleStatus} (hstatus : status ≠ .active) :
    (s.setStatus index status).Closed id := by
  refine ⟨index, ?_, ?_⟩
  · rw [indices_setStatus]
    exact hindex
  · rw [status_setStatus_self]
    exact hstatus

/-- Statuses of other modules do not matter. -/
theorem Closed.setStatus (h : s.Closed id) (hidentified : s.Identified) {id' index' : Nat}
    {status : StakingModuleStatus} (hindex' : s.stakingModuleIndicesOneBased id' = index' + 1)
    (hstatus : id' = id → status ≠ .active) : (s.setStatus index' status).Closed id := by
  obtain ⟨index, hindex, hinactive⟩ := h
  by_cases hsame : index = index'
  · subst hsame
    have hid : id' = id :=
      (hidentified id' index hindex').symm.trans (hidentified id index hindex)
    exact closed_setStatus hindex (hstatus hid)
  · refine ⟨index, ?_, ?_⟩
    · rw [indices_setStatus]
      exact hindex
    · rw [stakingModules_setStatus_of_ne hsame]
      exact hinactive

/-- The call activates a module, and the sender may do that. -/
def Activates (s : StakingRouter) (env : RouterEnv) (call : ManagementCall) (id : Nat) : Prop :=
  call = .setStakingModuleStatus id .active ∧ s.hasRole .stakingModuleManage env.sender = true ∨
    call = .resumeStakingModule id ∧ s.hasRole .stakingModuleResume env.sender = true

/-- **A closed module stays closed**, or the call activates it. -/
theorem Closed.run (h : s.Closed id) (hidentified : s.Identified) (hmanaged : s.Managed)
    (hrun : (s.run env call : Call (RouterError ε) _) = .ok s')
    (hactivates : ¬ s.Activates env call id) : s'.Closed id := by
  cases call with
  | addStakingModule =>
    obtain ⟨m, hadded⟩ := addStakingModule_ok_cases hrun
    obtain ⟨index, hindex, hinactive⟩ := h
    have hle := hmanaged.index_le id
    have hknown : id ≠ s.lastStakingModuleId % 2 ^ 24 + 1 := by
      have hid := hidentified id index hindex
      have hid_le := hmanaged.id_le index (by omega)
      rw [Nat.mod_eq_of_lt hmanaged.lastId_lt]
      omega
    rw [hadded.router]
    refine ⟨index, ?_, ?_⟩
    · simp only
      rw [Function.update_of_ne hknown]
      exact hindex
    · simp only
      rw [Function.update_of_ne (by omega)]
      exact hinactive
  | updateStakingModule =>
    obtain ⟨index', m, hchanged, hstatus⟩ := updateStakingModule_ok_cases hrun
    obtain ⟨index, hindex, hinactive⟩ := h
    rw [hchanged.router]
    refine ⟨index, hindex, ?_⟩
    unfold setStakingModule
    by_cases hsame : index = index'
    · subst hsame
      simp only [Function.update_self]
      rwa [hstatus]
    · simp only [Function.update_of_ne hsame]
      exact hinactive
  | setStakingModuleStatus id' status =>
    obtain ⟨hrole, index', hindex', rfl⟩ := setStakingModuleStatus_ok_cases hrun
    refine h.setStatus hidentified hindex' ?_
    rintro rfl rfl
    exact hactivates (.inl ⟨rfl, hrole⟩)
  | pauseStakingModule id' =>
    obtain ⟨index', hindex', rfl⟩ := pauseStakingModule_ok_cases hrun
    exact h.setStatus hidentified hindex' fun _ => by decide
  | resumeStakingModule id' =>
    obtain ⟨hrole, index', hindex', rfl⟩ := resumeStakingModule_ok_cases hrun
    refine h.setStatus hidentified hindex' ?_
    rintro rfl
    exact absurd (.inr ⟨rfl, hrole⟩) hactivates

theorem Quiet.identified (h : Quiet s s') (hidentified : s.Identified) : s'.Identified := by
  intro id i hi
  rw [h.indices] at hi
  rw [h.id]
  exact hidentified id i hi

theorem Quiet.closed (h : Quiet s s') (hclosed : s.Closed id) : s'.Closed id := by
  obtain ⟨index, hindex, hinactive⟩ := hclosed
  refine ⟨index, ?_, fun hactive => hinactive (h.status index hactive)⟩
  rw [h.indices]
  exact hindex

end StakingRouter

/-! ## The contract -/

/-- The errors of the calls below: those of the rest of the contract, and one more. -/
inductive PauseError where
  | security (e : SecurityError)
  | pauseIntentExpired
deriving DecidableEq, Repr

/-- The deposit security module with what is stored for pausing. -/
structure PausableSecurityModule extends DepositSecurityModule where
  pauseMessagePrefix : BitVec 256
  pauseIntentValidityPeriodBlocks : Nat

namespace PausableSecurityModule

variable (s : PausableSecurityModule) (crypto : Crypto)

def setPauseIntentValidityPeriodBlocks (env : Env) (newValue : Nat) :
    Call SecurityError PausableSecurityModule := do
  s.onlyOwner env
  require (newValue ≠ 0) (.zeroParameter "pauseIntentValidityPeriodBlocks")
  return { s with pauseIntentValidityPeriodBlocks := newValue }

/-- `_getGuardianIndex`; there are far fewer than `2 ^ 255` guardians. -/
def getGuardianIndex (addr : Address) : Int :=
  s.guardianIndicesOneBased addr - 1

/-- The message that a guardian signs to have a module paused by others. -/
def pauseMessage (blockNumber stakingModuleId : Nat) : Bytes :=
  bytesOfWord s.pauseMessagePrefix ++ bytesOfNat 32 blockNumber ++ bytesOfNat 32 stakingModuleId

/-- The guardian that `pauseDeposits` finds, the sender or the one that has signed. -/
def guardianAddr (env : RouterEnv) (blockNumber stakingModuleId : Nat) (sig : Signature) :
    Call PauseError Address := do
  let guardianIndex := s.getGuardianIndex env.sender
  if guardianIndex = -1 then
    let msgHash := crypto.keccak256 (s.pauseMessage blockNumber stakingModuleId)
    let guardianAddr ← within (fun e => .security (.ecdsa e))
      (ECDSA.recover crypto msgHash sig.r sig.vs)
    require (s.getGuardianIndex guardianAddr ≠ -1) (.security .invalidSignature)
    return guardianAddr
  else return env.sender

/-- The context of the calls that the contract makes. -/
def nested (env : Env) : Env := { env with sender := s.self, value := 0 }

/-- `pauseDeposits`, with what the router becomes -/
def pauseDeposits (env : RouterEnv) (router : StakingRouter) (blockNumber stakingModuleId : Nat)
    (sig : Signature) : Call PauseError StakingRouter := do
  let isActive ← within (fun e => .security (.router e))
    (router.getStakingModuleIsActive stakingModuleId)
  if isActive = false then return router
  else
    let _guardianAddr ← s.guardianAddr crypto env blockNumber stakingModuleId sig
    let blocks ← checkedSub env.blockNumber blockNumber
    require (blocks ≤ s.pauseIntentValidityPeriodBlocks) .pauseIntentExpired
    within (fun e => .security (.router e))
      (router.pauseStakingModule ⟨s.nested env.toEnv, env.blockNumber⟩ stakingModuleId)

/-- `unpauseDeposits`, with what the router becomes -/
def unpauseDeposits (env : RouterEnv) (router : StakingRouter) (stakingModuleId : Nat) :
    Call SecurityError StakingRouter := do
  s.onlyOwner env.toEnv
  let isDepositsPaused ← within .router
    (router.getStakingModuleIsDepositsPaused stakingModuleId)
  if isDepositsPaused = true then
    within .router
      (router.resumeStakingModule ⟨s.nested env.toEnv, env.blockNumber⟩ stakingModuleId)
  else return router

variable {s} {crypto} {env : RouterEnv} {router router' : StakingRouter} {blockNumber id : Nat}
  {sig : Signature}

theorem getGuardianIndex_ne_iff (h : s.Listed) {addr : Address} :
    s.getGuardianIndex addr ≠ -1 ↔ addr ∈ s.guardians := by
  rw [h.mem_iff, getGuardianIndex]
  omega

/-- A guardian calls, or one that has signed. -/
def Authorised (s : PausableSecurityModule) (crypto : Crypto) (env : RouterEnv)
    (blockNumber stakingModuleId : Nat) (sig : Signature) : Prop :=
  env.sender ∈ s.guardians ∨ ∃ a ∈ s.guardians, DepositSecurityModule.Recovers crypto
    (crypto.keccak256 (s.pauseMessage blockNumber stakingModuleId)) sig a

theorem exists_guardianAddr_iff (h : s.Listed) :
    (∃ a, s.guardianAddr crypto env blockNumber id sig = .ok a) ↔
      s.Authorised crypto env blockNumber id sig := by
  unfold guardianAddr Authorised
  by_cases hsender : s.getGuardianIndex env.sender = -1
  · have hnone : env.sender ∉ s.guardians := fun hmem =>
      (getGuardianIndex_ne_iff h).mpr hmem hsender
    simp only [if_pos hsender, bind_eq_ok, within_eq_ok, require_eq_ok, pure_eq_ok,
      getGuardianIndex_ne_iff h]
    constructor
    · rintro ⟨_, a, hrecovers, _, ha, rfl⟩
      exact .inr ⟨a, ha, hrecovers⟩
    · rintro (hmem | ⟨a, ha, hrecovers⟩)
      · exact absurd hmem hnone
      · exact ⟨a, a, hrecovers, (), ha, rfl⟩
  · simp only [if_neg hsender]
    exact ⟨fun _ => .inl ((getGuardianIndex_ne_iff h).mp hsender), fun _ => ⟨_, rfl⟩⟩

/-- What a call of `pauseDeposits` that returns has done. -/
inductive Paused (s : PausableSecurityModule) (crypto : Crypto) (env : RouterEnv)
    (router : StakingRouter) (blockNumber id : Nat) (sig : Signature) (index : Nat) :
    StakingRouter → Prop where
  /-- The module was not active, and nothing is checked. -/
  | inactive : (router.stakingModules index).status ≠ .active →
      Paused s crypto env router blockNumber id sig index router
  | active : (router.stakingModules index).status = .active →
      s.Authorised crypto env blockNumber id sig →
      blockNumber ≤ env.blockNumber →
      env.blockNumber ≤ blockNumber + s.pauseIntentValidityPeriodBlocks →
      router.hasRole .stakingModulePause s.self = true →
      Paused s crypto env router blockNumber id sig index (router.setStatus index .depositsPaused)

theorem pauseDeposits_eq_ok_iff (h : s.Listed) :
    s.pauseDeposits crypto env router blockNumber id sig = .ok router' ↔
      ∃ index, router.stakingModuleIndicesOneBased id = index + 1 ∧
        Paused s crypto env router blockNumber id sig index router' := by
  refine StakingRouter.iff_exists_index (fun hok => ?_) fun index hindex => ?_
  · simp only [pauseDeposits, bind_eq_ok, within_eq_ok] at hok
    obtain ⟨_, hisActive, -⟩ := hok
    exact StakingRouter.exists_index_of_isActive hisActive
  · unfold pauseDeposits StakingRouter.pauseStakingModule
    rw [StakingRouter.getStakingModuleIsActive_of hindex,
      StakingRouter.getStakingModuleIndexById_of hindex]
    simp only [within_ok, ok_bind, decide_eq_false_iff_not]
    by_cases hactive : (router.stakingModules index).status = .active
    · rw [if_neg (not_not.mpr hactive)]
      simp only [bind_eq_ok, within_eq_ok, require_eq_ok, checkedSub_eq_ok, pure_eq_ok,
        StakingRouter.onlyRole]
      constructor
      · rintro ⟨a, ha, _, ⟨hle, rfl⟩, _, hperiod, _, hrole, _, -, rfl⟩
        exact .active hactive ((exists_guardianAddr_iff h).mp ⟨a, ha⟩) hle (by omega) hrole
      · rintro (hinactive | ⟨-, hauthorised, hle, hperiod, hrole⟩)
        · exact absurd hactive hinactive
        · obtain ⟨a, ha⟩ := (exists_guardianAddr_iff h).mpr hauthorised
          exact ⟨a, ha, _, ⟨hle, rfl⟩, (), by omega, (), hrole, (), hactive, rfl⟩
    · rw [if_pos hactive, pure_eq_ok]
      constructor
      · rintro rfl
        exact .inactive hactive
      · rintro (- | ⟨hactive', -⟩)
        · rfl
        · exact absurd hactive' hactive

/-- What a call of `unpauseDeposits` that returns has done. -/
inductive Unpaused (s : PausableSecurityModule) (router : StakingRouter) (index : Nat) :
    StakingRouter → Prop where
  | other : (router.stakingModules index).status ≠ .depositsPaused →
      Unpaused s router index router
  | depositsPaused : (router.stakingModules index).status = .depositsPaused →
      router.hasRole .stakingModuleResume s.self = true →
      Unpaused s router index (router.setStatus index .active)

theorem unpauseDeposits_eq_ok_iff :
    s.unpauseDeposits env router id = .ok router' ↔ s.owners env.sender = true ∧
      ∃ index, router.stakingModuleIndicesOneBased id = index + 1 ∧
        Unpaused s router index router' := by
  simp only [unpauseDeposits, DepositSecurityModule.onlyOwner]
  rw [bind_eq_ok]
  simp only [require_eq_ok, exists_const]
  refine and_congr_right fun _ => ?_
  refine StakingRouter.iff_exists_index (fun hok => ?_) fun index hindex => ?_
  · simp only [StakingRouter.getStakingModuleIsDepositsPaused, bind_eq_ok, within_eq_ok] at hok
    obtain ⟨_, ⟨index, hindex, -⟩, -⟩ := hok
    exact ⟨index, StakingRouter.getStakingModuleIndexById_ok_cases hindex⟩
  · unfold StakingRouter.resumeStakingModule
    rw [StakingRouter.getStakingModuleIsDepositsPaused_of hindex,
      StakingRouter.getStakingModuleIndexById_of hindex]
    simp only [within_ok, ok_bind, decide_eq_true_eq]
    by_cases hpaused : (router.stakingModules index).status = .depositsPaused
    · rw [if_pos hpaused]
      simp only [bind_eq_ok, within_eq_ok, require_eq_ok, pure_eq_ok, StakingRouter.onlyRole]
      constructor
      · rintro ⟨_, hrole, _, -, rfl⟩
        exact .depositsPaused hpaused hrole
      · rintro (hother | ⟨-, hrole⟩)
        · exact absurd hpaused hother
        · exact ⟨(), hrole, (), hpaused, rfl⟩
    · rw [if_neg hpaused, pure_eq_ok]
      constructor
      · rintro rfl
        exact .other hpaused
      · rintro (- | ⟨hpaused', -⟩)
        · rfl
        · exact absurd hpaused' hpaused

end PausableSecurityModule

/-! ## Runs -/

/-- The module, the contracts that take part in deposits, and what was signed by whom. -/
structure PausableSystem where
  deposits : DepositSystem (ModuleWorld DepositContract)
  dsm : PausableSecurityModule
  signed : List (Address × Bytes)

namespace PausableSystem

variable {crypto : Crypto} {getKeyOffset : Nat → Nat → BitVec 256} {hashed : Set Bytes}
  {x x' : PausableSystem} {blockNumber id : Nat} {sig : Signature}

def router (x : PausableSystem) : StakingRouter :=
  x.deposits.router

def withRouter (x : PausableSystem) (router : StakingRouter) : PausableSystem :=
  { x with deposits := { x.deposits with router := router } }

inductive Action where
  | call (env : Env) (call : GuardianCall)
  | setPauseIntentValidityPeriodBlocks (env : Env) (newValue : Nat)
  | pauseDeposits (env : RouterEnv) (blockNumber stakingModuleId : Nat) (sig : Signature)
  | unpauseDeposits (env : RouterEnv) (stakingModuleId : Nat)
  | depositBufferedAce (registryEnv : RegistryEnv) (env : SecurityEnv) (args : DepositArgs)
  | router (env : RouterEnv) (call : ManagementCall)
  | sign (account : Address) (message : Bytes)
  | other

/-- The steps of a run. -/
inductive Performs (crypto : Crypto) (getKeyOffset : Nat → Nat → BitVec 256) (hashed : Set Bytes) :
    PausableSystem → Action → PausableSystem → Prop where
  | call {x : PausableSystem} {env : Env} {call : GuardianCall} {dsm : DepositSecurityModule} :
      x.dsm.run env call = .ok dsm →
      Performs crypto getKeyOffset hashed x (.call env call)
        { x with dsm := { x.dsm with toDepositSecurityModule := dsm } }
  | setPauseIntentValidityPeriodBlocks {x : PausableSystem} {env : Env} {newValue : Nat}
      {dsm : PausableSecurityModule} :
      x.dsm.setPauseIntentValidityPeriodBlocks env newValue = .ok dsm →
      Performs crypto getKeyOffset hashed x (.setPauseIntentValidityPeriodBlocks env newValue)
        { x with dsm := dsm }
  | pauseDeposits {x : PausableSystem} {env : RouterEnv} {blockNumber id : Nat} {sig : Signature}
      {router : StakingRouter} :
      x.dsm.pauseDeposits crypto env x.router blockNumber id sig = .ok router →
      Performs crypto getKeyOffset hashed x (.pauseDeposits env blockNumber id sig)
        (x.withRouter router)
  | unpauseDeposits {x : PausableSystem} {env : RouterEnv} {id : Nat} {router : StakingRouter} :
      x.dsm.unpauseDeposits env x.router id = .ok router →
      Performs crypto getKeyOffset hashed x (.unpauseDeposits env id) (x.withRouter router)
  | depositBufferedAce {x : PausableSystem} {registryEnv : RegistryEnv} {env : SecurityEnv}
      {args : DepositArgs} {deposits : DepositSystem (ModuleWorld DepositContract)} :
      x.dsm.depositBufferedAce crypto getKeyOffset registryEnv env x.deposits args = .ok deposits →
      Performs crypto getKeyOffset hashed x (.depositBufferedAce registryEnv env args)
        { x with deposits := deposits }
  | router {x : PausableSystem} {env : RouterEnv} {call : ManagementCall} {router : StakingRouter} :
      (x.router.run env call : Call (RouterError Unit) StakingRouter) = .ok router →
      Performs crypto getKeyOffset hashed x (.router env call) (x.withRouter router)
  | sign {x : PausableSystem} {account : Address} {message : Bytes} :
      message ∈ hashed →
      Performs crypto getKeyOffset hashed x (.sign account message)
        { x with signed := (account, message) :: x.signed }
  /-- Every other call of the router and of the registries, by whoever is let in. -/
  | routerCall {x : PausableSystem} {action : RouterAction} {router : StakingRouter}
      {world : ModuleWorld DepositContract} :
      RouterSystem.Performs getKeyOffset (depositInto crypto.sha256)
        ⟨x.deposits.router, x.deposits.world⟩ action ⟨router, world⟩ →
      action ≠ .manage →
      Performs crypto getKeyOffset hashed x .other
        { x with deposits := { x.deposits with router := router, world := world } }
  /-- Whatever happens to the pool. -/
  | pool {x : PausableSystem} {pool : Pool} :
      Performs crypto getKeyOffset hashed x .other
        { x with deposits := { x.deposits with pool := pool } }

/-- There are neither guardians nor modules. -/
structure Initial (hashed : Set Bytes) (x : PausableSystem) : Prop where
  guardians : x.dsm.guardians = []
  indices : ∀ a, x.dsm.guardianIndicesOneBased a = 0
  router : x.router.Fresh
  signed : ∀ a message, (a, message) ∈ x.signed → message ∈ hashed

/-- The tables of guardians and of modules belong together, and what was signed was hashed. -/
structure Kept (hashed : Set Bytes) (x : PausableSystem) : Prop where
  listed : x.dsm.Listed
  managed : x.router.Managed
  identified : x.router.Identified
  signed : ∀ a message, (a, message) ∈ x.signed → message ∈ hashed

theorem Initial.kept (h : Initial hashed x) : Kept hashed x where
  listed := by
    intro a i
    rw [h.guardians, h.indices a]
    simp
  managed := StakingRouter.managed_of_fresh h.router
  identified := by
    intro id i hi
    rw [h.router.indices id] at hi
    omega
  signed := h.signed

theorem Kept.withRouter (h : Kept hashed x) {router : StakingRouter} (hmanaged : router.Managed)
    (hidentified : router.Identified) : Kept hashed (x.withRouter router) :=
  ⟨h.listed, hmanaged, hidentified, h.signed⟩

theorem Kept.setStatus (h : Kept hashed x) {index : Nat} {status : StakingModuleStatus}
    (hindex : x.router.stakingModuleIndicesOneBased id = index + 1) :
    Kept hashed (x.withRouter (x.router.setStatus index status)) :=
  h.withRouter (h.managed.changed (StakingRouter.changed_setStatus hindex status))
    (h.identified.setStatus status)

/-- The router after `depositBufferedAce`. -/
theorem quiet_of_depositBufferedAce {registryEnv : RegistryEnv} {env : SecurityEnv}
    {args : DepositArgs} {deposits : DepositSystem (ModuleWorld DepositContract)}
    (h : x.dsm.depositBufferedAce crypto getKeyOffset registryEnv env x.deposits args
      = .ok deposits) :
    StakingRouter.Quiet x.router deposits.router ∧ ¬ x.router.Closed args.stakingModuleId := by
  simp only [DepositSecurityModule.depositBufferedAce, bind_eq_ok, within_eq_ok] at h
  obtain ⟨_, -, hdeposit⟩ := h
  obtain ⟨_, _, -, -, -, -, -, -, hrouter⟩ := DepositSystem.deposit_ok_cases hdeposit
  obtain ⟨index, hindex, hactive, -, heq, -⟩ := StakingRouter.deposit_ok_cases hrouter
  constructor
  · unfold router
    rw [heq]
    exact (RouterSystem.sameModules_noted _ _ _).toQuiet
  · rintro ⟨index', hindex', hinactive⟩
    obtain rfl : index = index' := Nat.succ_injective (hindex.symm.trans hindex')
    exact hinactive hactive

theorem Kept.step (h : Kept hashed x) {action : Action}
    (hs : Performs crypto getKeyOffset hashed x action x') : Kept hashed x' := by
  cases hs with
  | call hcall => exact ⟨(h.listed.run _).of_ok hcall, h.managed, h.identified, h.signed⟩
  | setPauseIntentValidityPeriodBlocks hcall =>
    simp only [PausableSecurityModule.setPauseIntentValidityPeriodBlocks, bind_eq_ok,
      pure_eq_ok] at hcall
    obtain ⟨_, -, _, -, rfl⟩ := hcall
    exact ⟨h.listed, h.managed, h.identified, h.signed⟩
  | pauseDeposits hcall =>
    obtain ⟨index, hindex, hpaused⟩ :=
      (PausableSecurityModule.pauseDeposits_eq_ok_iff h.listed).mp hcall
    cases hpaused with
    | inactive _ => exact h
    | active _ _ _ _ _ => exact h.setStatus hindex
  | unpauseDeposits hcall =>
    obtain ⟨-, index, hindex, hunpaused⟩ :=
      PausableSecurityModule.unpauseDeposits_eq_ok_iff.mp hcall
    cases hunpaused with
    | other _ => exact h
    | depositsPaused _ _ => exact h.setStatus hindex
  | depositBufferedAce hcall =>
    obtain ⟨hquiet, -⟩ := quiet_of_depositBufferedAce hcall
    exact ⟨h.listed, hquiet.managed h.managed, hquiet.identified h.identified, h.signed⟩
  | router hcall =>
    exact h.withRouter (h.managed.run hcall) (h.identified.run h.managed hcall)
  | @sign account message hmessage =>
    refine ⟨h.listed, h.managed, h.identified, fun a message' hsigned => ?_⟩
    rcases List.mem_cons.mp hsigned with heq | hold
    · cases heq
      exact hmessage
    · exact h.signed a message' hold
  | routerCall hcall hmanage =>
    have hquiet := (hcall.sameModules hmanage).toQuiet
    exact ⟨h.listed, hquiet.managed h.managed, hquiet.identified h.identified, h.signed⟩
  | pool => exact ⟨h.listed, h.managed, h.identified, h.signed⟩

theorem kept_of_reachable {w : Recorded PausableSystem Action}
    (h : Reachable (Recorded.Starts (Initial hashed))
      (Recorded.Acts (Performs crypto getKeyOffset hashed)) w) : Kept hashed w.state := by
  refine h.invariant (fun w hw => hw.1.kept) ?_
  intro w w' hw hs
  obtain ⟨hperforms⟩ := hs
  exact hw.step hperforms

/-! ## Who pauses -/

/-- What is assumed of a call: its message is hashed, and no guardian's signature is forged. -/
structure Presents (crypto : Crypto) (hashed : Set Bytes) (x : PausableSystem)
    (blockNumber stakingModuleId : Nat) (sig : Signature) : Prop where
  message_mem : x.dsm.pauseMessage blockNumber stakingModuleId ∈ hashed
  unforged : Unforged
    (DepositSecurityModule.Recovers crypto
      (crypto.keccak256 (x.dsm.pauseMessage blockNumber stakingModuleId)))
    {a | a ∈ x.dsm.guardians} (fun a message => (a, message) ∈ x.signed) crypto.keccak256
    (crypto.keccak256 (x.dsm.pauseMessage blockNumber stakingModuleId)) [sig]

/-- A guardian that did not call has signed for this block and this module. -/
theorem Kept.signed_of_authorised (h : Kept hashed x)
    (hkeccak : Set.InjOn crypto.keccak256 hashed) {env : RouterEnv}
    (hpresents : Presents crypto hashed x blockNumber id sig)
    (hauthorised : x.dsm.Authorised crypto env blockNumber id sig) :
    ∃ a ∈ x.dsm.guardians, env.sender = a ∨ (a, x.dsm.pauseMessage blockNumber id) ∈ x.signed := by
  rcases hauthorised with hsender | ⟨a, ha, hrecovers⟩
  · exact ⟨env.sender, hsender, .inl rfl⟩
  · have hcertifies : Certifies (DepositSecurityModule.Recovers crypto
        (crypto.keccak256 (x.dsm.pauseMessage blockNumber id))) [sig] [a] :=
      Certifies.nil.cons hrecovers fun b hb => absurd hb List.not_mem_nil
    exact ⟨a, ha, .inr (hcertifies.signed hpresents.unforged hkeccak hpresents.message_mem h.signed
      (List.mem_singleton_self a) ha)⟩

/--
**Pausing is up to one guardian, unpausing to the owners.** In every state of every run,
`pauseDeposits` returns if and only if the module is registered and, where it is active, a guardian
calls or has signed, the block of the intent is not in the future and not too old, and the router
lets the contract pause. Then the module is paused; one that is not active stays as it is, whoever
calls.

When nobody forges signatures, the guardian that did not call has signed the pause message of this
block and this module.

`unpauseDeposits` returns if and only if an owner calls for a registered module which, if its deposits
are paused, the router lets the contract resume. It activates only these: what is stopped stays
stopped.
-/
theorem pauseDeposits_exact (hkeccak : Set.InjOn crypto.keccak256 hashed)
    {w : Recorded PausableSystem Action}
    (h : Reachable (Recorded.Starts (Initial hashed))
      (Recorded.Acts (Performs crypto getKeyOffset hashed)) w) :
    (∀ env blockNumber id sig router,
      w.state.dsm.pauseDeposits crypto env w.state.router blockNumber id sig = .ok router ↔
        ∃ index, w.state.router.stakingModuleIndicesOneBased id = index + 1 ∧
          PausableSecurityModule.Paused w.state.dsm crypto env w.state.router blockNumber id sig
            index router) ∧
    (∀ env blockNumber id sig router, Presents crypto hashed w.state blockNumber id sig →
      w.state.dsm.pauseDeposits crypto env w.state.router blockNumber id sig = .ok router →
      w.state.router.Closed id ∨ ∃ a ∈ w.state.dsm.guardians,
        env.sender = a ∨ (a, w.state.dsm.pauseMessage blockNumber id) ∈ w.state.signed) ∧
    ∀ env id router, w.state.dsm.unpauseDeposits env w.state.router id = .ok router ↔
      w.state.dsm.owners env.sender = true ∧
        ∃ index, w.state.router.stakingModuleIndicesOneBased id = index + 1 ∧
          PausableSecurityModule.Unpaused w.state.dsm w.state.router index router := by
  have hkept := kept_of_reachable h
  refine ⟨fun env blockNumber id sig router =>
      PausableSecurityModule.pauseDeposits_eq_ok_iff hkept.listed, ?_,
    fun env id router => PausableSecurityModule.unpauseDeposits_eq_ok_iff⟩
  intro env blockNumber id sig router hpresents hok
  obtain ⟨index, hindex, hpaused⟩ :=
    (PausableSecurityModule.pauseDeposits_eq_ok_iff hkept.listed).mp hok
  cases hpaused with
  | inactive hinactive => exact .inl ⟨index, hindex, hinactive⟩
  | active _ hauthorised _ _ _ =>
    exact .inr (hkept.signed_of_authorised hkeccak hpresents hauthorised)

/-!
Of two guardians one signs, and the owner of the contract, who is no guardian, presents the
signature four blocks later.
-/

def examplePausable (dsm : DepositSecurityModule) : PausableSecurityModule where
  toDepositSecurityModule := dsm
  pauseMessagePrefix := 88
  pauseIntentValidityPeriodBlocks := 6

def examplePauseMessage : Bytes :=
  (examplePausable GuardedSystem.exampleSecurityModule).pauseMessage 3 1

/-- The hash of the message is the last word of it. -/
def examplePauseSignature : Signature := ⟨3, 1⟩

def examplePauseEnv : RouterEnv := RouterSystem.exampleRouterEnv 0

def examplePauseState (router : StakingRouter) (dsm : DepositSecurityModule)
    (signed : List (Address × Bytes)) : PausableSystem :=
  ⟨{ GuardedSystem.exampleDeposits with router := router }, examplePausable dsm, signed⟩

def exampleAddModule : ManagementCall := .addStakingModule [65] 21 10000 500 500

def exampleSystem : PausableSystem :=
  examplePauseState RouterSystem.exampleOneModule GuardedSystem.exampleCommittee
    [(3, examplePauseMessage)]

def examplePausedRouter : StakingRouter :=
  result (exampleSystem.dsm.pauseDeposits GuardedSystem.exampleCrypto examplePauseEnv
    exampleSystem.router 3 1 examplePauseSignature) (by decide +kernel)

theorem examplePausedRouter_eq :
    exampleSystem.dsm.pauseDeposits GuardedSystem.exampleCrypto examplePauseEnv
      exampleSystem.router 3 1 examplePauseSignature = .ok examplePausedRouter :=
  eq_ok_result _ (by decide +kernel)

def exampleTwoModules : StakingRouter :=
  result (examplePausedRouter.run examplePauseEnv (.addStakingModule [66] 22 0 0 0) :
    Call (RouterError Unit) StakingRouter) (by decide +kernel)

/-- The run up to the pause. -/
theorem exists_examplePause :
    ∃ w : Recorded PausableSystem Action, w.state = exampleSystem ∧
      Reachable (Recorded.Starts (Initial {examplePauseMessage}))
        (Recorded.Acts (Performs GuardedSystem.exampleCrypto NodeOperatorsRegistry.exampleKeyOffset
          {examplePauseMessage})) w := by
  have hadd : (RouterSystem.exampleNewRouter.run examplePauseEnv exampleAddModule :
      Call (RouterError Unit) StakingRouter) = .ok RouterSystem.exampleOneModule :=
    eq_ok_result _ (by decide +kernel)
  have hguardians : GuardedSystem.exampleSecurityModule.run examplePauseEnv.toEnv
      (.addGuardians [3, 5] 2) = .ok GuardedSystem.exampleCommittee :=
    eq_ok_result _ (by decide +kernel)
  have hinit : Recorded.Starts (Initial {examplePauseMessage})
      ⟨examplePauseState RouterSystem.exampleNewRouter GuardedSystem.exampleSecurityModule [],
        ([] : List (Moment PausableSystem Action))⟩ :=
    ⟨⟨rfl, fun _ => rfl, ⟨rfl, rfl, fun _ => rfl⟩,
      fun _ _ hnone => absurd hnone List.not_mem_nil⟩, rfl⟩
  exact ⟨_, rfl, (((Reachable.init hinit).step (.act (.router hadd))).step
    (.act (.call hguardians))).step (.act (@Performs.sign _ _ _ _ 3 _ (Set.mem_singleton _)))⟩

theorem presents_exampleSystem :
    Presents GuardedSystem.exampleCrypto {examplePauseMessage} exampleSystem 3 1
      examplePauseSignature := by
  refine ⟨rfl, fun sig hsig a ha hrecovers => ⟨examplePauseMessage, ?_, rfl⟩⟩
  rw [List.mem_singleton.mp hsig] at hrecovers
  have hsigner : DepositSecurityModule.Recovers GuardedSystem.exampleCrypto
      (GuardedSystem.exampleCrypto.keccak256 (exampleSystem.dsm.pauseMessage 3 1))
      examplePauseSignature 3 := by
    show _ = _
    decide +kernel
  obtain rfl : (3 : Address) = a := Except.ok.inj (hsigner.symm.trans hrecovers)
  exact List.mem_singleton_self _

theorem pauseDeposits_exact_signed :
    (3, examplePauseMessage) ∈ exampleSystem.signed ∧
      ∃ a ∈ exampleSystem.dsm.guardians, examplePauseEnv.sender = a ∨
        (a, exampleSystem.dsm.pauseMessage 3 1) ∈ exampleSystem.signed := by
  obtain ⟨w, hstate, h⟩ := exists_examplePause
  obtain ⟨-, hauthorised, -⟩ := pauseDeposits_exact (Set.injOn_singleton _ _) h
  rw [hstate] at hauthorised
  refine ⟨List.mem_singleton_self _, ?_⟩
  rcases hauthorised examplePauseEnv 3 1 examplePauseSignature examplePausedRouter
    presents_exampleSystem examplePausedRouter_eq with ⟨index, hindex, hclosed⟩ | hsigned
  · have hactive : exampleSystem.router.stakingModuleIndicesOneBased 1 = 1 ∧
        (exampleSystem.router.stakingModules 0).status = .active := by decide +kernel
    obtain rfl : 0 = index := Nat.succ_injective (hactive.1.symm.trans hindex)
    exact absurd hactive.2 hclosed
  · exact hsigned

/-! ## Until it is activated -/

/-- At this moment someone who may do that activates the module. -/
def Activates (id : Nat) (m : Moment PausableSystem Action) : Prop :=
  (∃ env, m.action = .unpauseDeposits env id ∧ m.before.dsm.owners env.sender = true) ∨
    ∃ env call, m.action = .router env call ∧ m.before.router.Activates env call id

/-- A closed module stays closed, or the step activates it. -/
theorem Kept.closed_of_performs (h : Kept hashed x) {action : Action}
    (hs : Performs crypto getKeyOffset hashed x action x') (hclosed : x.router.Closed id)
    (hactivates : ¬ Activates id ⟨x, action, x'⟩) : x'.router.Closed id := by
  cases hs with
  | call _ => exact hclosed
  | setPauseIntentValidityPeriodBlocks _ => exact hclosed
  | pauseDeposits hcall =>
    obtain ⟨index, hindex, hpaused⟩ :=
      (PausableSecurityModule.pauseDeposits_eq_ok_iff h.listed).mp hcall
    cases hpaused with
    | inactive _ => exact hclosed
    | active _ _ _ _ _ => exact hclosed.setStatus h.identified hindex fun _ => by decide
  | @unpauseDeposits env id' _ hcall =>
    obtain ⟨howner, index, hindex, hunpaused⟩ :=
      PausableSecurityModule.unpauseDeposits_eq_ok_iff.mp hcall
    cases hunpaused with
    | other _ => exact hclosed
    | depositsPaused _ _ =>
      refine hclosed.setStatus h.identified hindex ?_
      rintro rfl
      exact absurd (.inl ⟨env, rfl, howner⟩) hactivates
  | depositBufferedAce hcall => exact (quiet_of_depositBufferedAce hcall).1.closed hclosed
  | @router env call _ hcall =>
    exact hclosed.run h.identified h.managed hcall fun hcalled =>
      hactivates (.inr ⟨env, call, rfl, hcalled⟩)
  | sign _ => exact hclosed
  | routerCall hcall hmanage => exact (hcall.sameModules hmanage).toQuiet.closed hclosed
  | pool => exact hclosed

/-- After `pauseDeposits` the module is closed, whether it was before or not. -/
theorem Kept.closed_of_pauseDeposits (h : Kept hashed x) {env : RouterEnv} {router : StakingRouter}
    (hcall : x.dsm.pauseDeposits crypto env x.router blockNumber id sig = .ok router) :
    router.Closed id := by
  obtain ⟨index, hindex, hpaused⟩ :=
    (PausableSecurityModule.pauseDeposits_eq_ok_iff h.listed).mp hcall
  cases hpaused with
  | inactive hinactive => exact ⟨index, hindex, hinactive⟩
  | active _ _ _ _ _ => exact StakingRouter.closed_setStatus hindex (by decide)

/--
**A paused module stays closed until it is activated.** In every run, after a call of
`pauseDeposits` for a module that returned, and as long as neither an owner unpauses the module nor
an account with the role for it activates it at the router, the module is not active, no deposit is
made to it, and every `depositBufferedAce` for it reverts.
-/
theorem paused_until_activated {w : Recorded PausableSystem Action}
    {past later : List (Moment PausableSystem Action)} {m : Moment PausableSystem Action}
    {env : RouterEnv}
    (h : Reachable (Recorded.Starts (Initial hashed))
      (Recorded.Acts (Performs crypto getKeyOffset hashed)) w)
    (hhistory : w.history = past ++ m :: later)
    (hpause : m.action = .pauseDeposits env blockNumber id sig)
    (hlater : ∀ m' ∈ later, ¬ Activates id m') :
    w.state.router.Closed id ∧
    (∀ m' ∈ later, ∀ registryEnv env args,
      m'.action = .depositBufferedAce registryEnv env args → args.stakingModuleId ≠ id) ∧
    ∀ registryEnv env args deposits, args.stakingModuleId = id →
      w.state.dsm.depositBufferedAce crypto getKeyOffset registryEnv env w.state.deposits args
        ≠ .ok deposits := by
  have hstarts : ∀ w₀, Recorded.Starts (α := Action) (Initial hashed) w₀ → w₀.history = [] :=
    fun w₀ hw₀ => hw₀.2
  obtain ⟨hbefore, hperforms, -⟩ := h.cut (fun w₀ h₀ => by
    rw [hstarts w₀ h₀]
    exact Nat.zero_le _) hhistory
  have hkept := kept_of_reachable hbefore
  obtain ⟨before, action, after⟩ := m
  simp only at hpause hperforms hkept
  subst hpause
  -- the invariant that carries the run from the pause on
  obtain ⟨-, hclosed, hnone⟩ : Kept hashed w.state ∧ w.state.router.Closed id ∧
      ∀ m' ∈ later, ∀ registryEnv env args,
        m'.action = .depositBufferedAce registryEnv env args → args.stakingModuleId ≠ id := by
    have hstays := h.lasting (P := fun between x => Kept hashed x ∧
      ((∀ m' ∈ between, ¬ Activates id m') → x.router.Closed id ∧
        ∀ m' ∈ between, ∀ registryEnv env args,
          m'.action = .depositBufferedAce registryEnv env args → args.stakingModuleId ≠ id))
      hstarts hhistory ?_ ?_
    · exact ⟨hstays.1, hstays.2 hlater⟩
    · refine ⟨hkept.step hperforms, fun _ => ⟨?_, fun m' hm' => absurd hm' List.not_mem_nil⟩⟩
      cases hperforms with
      | pauseDeposits hcall => exact hkept.closed_of_pauseDeposits hcall
    · rintro between x action x' ⟨hx, hclosed⟩ hs
      refine ⟨hx.step hs, fun hbetween => ?_⟩
      obtain ⟨hclosed, hnone⟩ := hclosed fun m' hm' => hbetween m' (List.mem_append_left _ hm')
      have hlast := hbetween _ (List.mem_append_right _ (List.mem_singleton_self _))
      refine ⟨hx.closed_of_performs hs hclosed hlast, fun m' hm' => ?_⟩
      rcases List.mem_append.mp hm' with hm' | hm'
      · exact hnone m' hm'
      · rw [List.mem_singleton.mp hm']
        rintro registryEnv env args rfl rfl
        cases hs with
        | depositBufferedAce hcall => exact (quiet_of_depositBufferedAce hcall).2 hclosed
  refine ⟨hclosed, hnone, ?_⟩
  rintro registryEnv env args deposits rfl hcall
  exact (quiet_of_depositBufferedAce hcall).2 hclosed

/-- After the pause another module is added, and the guardian signs once more. -/
theorem paused_until_activated_later : ∃ router : StakingRouter, router.stakingModulesCount = 2 ∧
    router.Closed 1 ∧
      ∀ registryEnv env args deposits, args.stakingModuleId = 1 →
        exampleSystem.dsm.depositBufferedAce GuardedSystem.exampleCrypto
          NodeOperatorsRegistry.exampleKeyOffset registryEnv env
          (exampleSystem.withRouter router).deposits args ≠ .ok deposits := by
  obtain ⟨w, hstate, h⟩ := exists_examplePause
  have hpause := examplePausedRouter_eq
  have hadd : (examplePausedRouter.run examplePauseEnv (.addStakingModule [66] 22 0 0 0) :
      Call (RouterError Unit) StakingRouter) = .ok exampleTwoModules := eq_ok_result _ _
  have hcount : exampleTwoModules.stakingModulesCount = 2 := by decide +kernel
  rw [← hstate] at hpause ⊢
  generalize exampleTwoModules = router, examplePausedRouter = paused at *
  have hlater := ((h.step (.act (.pauseDeposits hpause))).step (.act (.router hadd))).step
    (.act (@Performs.sign _ _ _ _ 3 _ (Set.mem_singleton _)))
  have hpaused := paused_until_activated hlater
    ((List.append_assoc (w.history ++ [_]) [_] [_]).trans (List.append_assoc w.history [_] _)) rfl
  obtain ⟨hclosed, -, hreverts⟩ := hpaused (by
    intro m' hm'
    rcases List.mem_cons.mp hm' with rfl | hm'
    · -- the added module is another one
      rintro (⟨_, ⟨⟩, -⟩ | ⟨_, _, ⟨⟩, ⟨⟨⟩, -⟩ | ⟨⟨⟩, -⟩⟩)
    · rw [List.mem_singleton.mp hm']
      rintro (⟨_, ⟨⟩, -⟩ | ⟨_, _, ⟨⟩, -⟩))
  exact ⟨router, hcount, hclosed, hreverts⟩

end PausableSystem

end Catalist
