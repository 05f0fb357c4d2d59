import Catalist.Router.ActiveCounts

/-!
# A change of the withdrawal credentials

`setWithdrawalCredentials` of `StakingRouter.sol`. A signature of a deposit is for the credentials
that it was made with, so every module is told to discard its unused keys. A module that fails to is
paused, and does not hold up the others; only a revert without data, which is taken for a lack of
gas, reverts the call.
-/

namespace Catalist

open Solidity Transition

inductive CredentialsError where
  | missingRole (account : Address)
  | unrecoverableModuleError
deriving DecidableEq, Repr

namespace StakingRouter

section

variable {ρ : Type} (onWithdrawalCredentialsChanged : ρ → Address → Except Bytes ρ)

/--
The loop of `setWithdrawalCredentials`, over the indices that are left. A module answers with its new
state, or with the data of its revert.
-/
def credentialsLoop : List Nat → StakingRouter → ρ → Call CredentialsError (StakingRouter × ρ)
  | [], s, world => return (s, world)
  | i :: is, s, world =>
    match onWithdrawalCredentialsChanged world (s.stakingModules i).stakingModuleAddress with
    | .ok world => credentialsLoop is s world
    | .error lowLevelRevertData => do
      require (lowLevelRevertData.length ≠ 0) .unrecoverableModuleError
      credentialsLoop is (s.setStatus i .depositsPaused) world

/-- `setWithdrawalCredentials`, with the answers for `MANAGE_WITHDRAWAL_CREDENTIALS_ROLE` -/
def setWithdrawalCredentials (s : StakingRouter) (hasManageRole : Address → Bool) (env : RouterEnv)
    (withdrawalCredentials : BitVec 256) (world : ρ) :
    Call CredentialsError (StakingRouter × ρ) := do
  require (hasManageRole env.sender = true) (.missingRole env.sender)
  credentialsLoop onWithdrawalCredentialsChanged (List.range s.stakingModulesCount)
    { s with withdrawalCredentials := withdrawalCredentials } world

end

end StakingRouter

/-! ## Modules that are registries -/

/-- What the environment of a change decides about the answers of the registries. -/
structure AnswerEnv extends RegistryEnv where
  /-- The data that a revert comes with. -/
  revertData : Revert RegistryError → Bytes
  outOfGas : Address → Bool

namespace ModuleWorld

variable {δ : Type}

/-- The answer of one registry. -/
def answer (env : AnswerEnv) (addr : Address) (registry : NodeOperatorsRegistry) :
    Except Bytes NodeOperatorsRegistry :=
  if env.outOfGas addr = true then .error []
  else match registry.onWithdrawalCredentialsChanged env.toRegistryEnv with
    | .ok registry => .ok registry
    | .error r => .error (env.revertData r)

def onWithdrawalCredentialsChanged (env : AnswerEnv) (world : ModuleWorld δ) (addr : Address) :
    Except Bytes (ModuleWorld δ) :=
  match answer env addr (world.registries addr) with
  | .ok registry => .ok (world.set addr registry)
  | .error lowLevelRevertData => .error lowLevelRevertData

theorem registries_set {world : ModuleWorld δ} {addr : Address} {registry : NodeOperatorsRegistry} :
    (world.set addr registry).registries addr = registry := by
  simp [ModuleWorld.set]

/-- The registry after the call, which a revert leaves as it was. -/
def answered (env : AnswerEnv) (addr : Address) (registry : NodeOperatorsRegistry) :
    NodeOperatorsRegistry :=
  match answer env addr registry with
  | .ok registry' => registry'
  | .error _ => registry

theorem answer_eq_ok {env : AnswerEnv} {addr : Address} {registry registry' : NodeOperatorsRegistry}
    (h : answer env addr registry = .ok registry') :
    registry.onWithdrawalCredentialsChanged env.toRegistryEnv = .ok registry' := by
  unfold answer at h
  split at h
  · cases h
  · split at h
    · next hcall =>
      cases h
      exact hcall
    · cases h

end ModuleWorld

namespace StakingRouter

open ModuleWorld

variable {δ : Type} {s s' : StakingRouter} {world world' : ModuleWorld δ} {env : AnswerEnv}

/-- The address of the module at an index. -/
abbrev addressOf (s : StakingRouter) (i : Nat) : Address := (s.stakingModules i).stakingModuleAddress

/-- The module after its answer. -/
def informed (m : StakingModule) (a : Except Bytes NodeOperatorsRegistry) : StakingModule :=
  match a with
  | .ok _ => m
  | .error _ => { m with status := .depositsPaused }

/-- The modules at `is` have answered, each for itself. -/
structure Informed (env : AnswerEnv) (is : List Nat) (s s' : StakingRouter)
    (world world' : ModuleWorld δ) : Prop where
  router : s' = { s with stakingModules := s'.stakingModules }
  depositContract : world'.depositContract = world.depositContract
  module : ∀ i ∈ is, s'.stakingModules i
    = informed (s.stakingModules i) (answer env (s.addressOf i) (world.registries (s.addressOf i)))
  other_module : ∀ i, i ∉ is → s'.stakingModules i = s.stakingModules i
  registry : ∀ i ∈ is, world'.registries (s.addressOf i)
    = answered env (s.addressOf i) (world.registries (s.addressOf i))
  other_registry : ∀ addr, (∀ i ∈ is, s.addressOf i ≠ addr) →
    world'.registries addr = world.registries addr

/-- The module at `i` has answered. -/
structure Answered (env : AnswerEnv) (i : Nat) (s s' : StakingRouter)
    (world world' : ModuleWorld δ) : Prop where
  router : s' = s.setStakingModule i (informed (s.stakingModules i)
    (answer env (s.addressOf i) (world.registries (s.addressOf i))))
  world : world' = world.set (s.addressOf i)
    (answered env (s.addressOf i) (world.registries (s.addressOf i)))

theorem Answered.stakingModules_of_ne {i j : Nat} (h : Answered env i s s' world world')
    (hne : j ≠ i) : s'.stakingModules j = s.stakingModules j := by
  rw [h.router]
  exact Function.update_of_ne hne _ _

theorem Answered.registries_of_ne {i : Nat} {addr : Address}
    (h : Answered env i s s' world world') (hne : addr ≠ s.addressOf i) :
    world'.registries addr = world.registries addr := by
  rw [h.world]
  exact Function.update_of_ne hne _ _

/-- The other modules will give the answers that they would have given before. -/
theorem Answered.answer_eq {i j : Nat} (h : Answered env i s s' world world') (hne : j ≠ i)
    (haddress : s.addressOf j ≠ s.addressOf i) :
    s'.addressOf j = s.addressOf j ∧
      world'.registries (s'.addressOf j) = world.registries (s.addressOf j) := by
  have hsame : s'.addressOf j = s.addressOf j := by
    rw [addressOf, h.stakingModules_of_ne hne]
  rw [hsame]
  exact ⟨rfl, h.registries_of_ne haddress⟩

theorem Informed.cons {i : Nat} {is : List Nat} {s₁ : StakingRouter} {world₁ : ModuleWorld δ}
    (hi : i ∉ is) (hdistinct : ∀ j ∈ is, s.addressOf j ≠ s.addressOf i)
    (hanswered : Answered env i s s₁ world world₁) (h : Informed env is s₁ s' world₁ world') :
    Informed env (i :: is) s s' world world' := by
  have hne : ∀ j ∈ is, j ≠ i := fun j hj heq => hi (heq ▸ hj)
  have hother : ∀ j ∈ is, s₁.addressOf j = s.addressOf j ∧
      world₁.registries (s₁.addressOf j) = world.registries (s.addressOf j) :=
    fun j hj => hanswered.answer_eq (hne j hj) (hdistinct j hj)
  refine ⟨?_, ?_, fun j hj => ?_, fun j hj => ?_, fun j hj => ?_, fun addr haddr => ?_⟩
  · rw [h.router, hanswered.router]
    rfl
  · rw [h.depositContract, hanswered.world]
    rfl
  · rcases List.mem_cons.mp hj with rfl | hj
    · rw [h.other_module j hi, hanswered.router]
      exact Function.update_self ..
    · rw [h.module j hj, (hother j hj).2, (hother j hj).1,
        hanswered.stakingModules_of_ne (hne j hj)]
  · rw [List.mem_cons, not_or] at hj
    rw [h.other_module j hj.2, hanswered.stakingModules_of_ne hj.1]
  · rcases List.mem_cons.mp hj with rfl | hj
    · rw [h.other_registry (s.addressOf j), hanswered.world]
      · exact Function.update_self ..
      · intro k hk
        rw [(hother k hk).1]
        exact hdistinct k hk
    · have hcase := h.registry j hj
      rwa [(hother j hj).2, (hother j hj).1] at hcase
  · rw [h.other_registry addr, hanswered.registries_of_ne (haddr i List.mem_cons_self).symm]
    intro k hk
    rw [(hother k hk).1]
    exact haddr k (List.mem_cons_of_mem _ hk)

/-- The first module answers, and unless it reverts without data, the loop goes on. -/
theorem credentialsLoop_cons {i : Nat} (is : List Nat)
    (hdata : answer env (s.addressOf i) (world.registries (s.addressOf i)) ≠ .error []) :
    ∃ s₁ world₁, Answered env i s s₁ world world₁ ∧
      credentialsLoop (onWithdrawalCredentialsChanged env) (i :: is) s world
        = credentialsLoop (onWithdrawalCredentialsChanged env) is s₁ world₁ := by
  cases hanswer : answer env (s.addressOf i) (world.registries (s.addressOf i)) with
  | ok registry =>
    refine ⟨s, world.set (s.addressOf i) registry, ⟨?_, ?_⟩, ?_⟩
    · rw [hanswer, informed, setStakingModule, Function.update_eq_self]
    · rw [answered, hanswer]
    · rw [credentialsLoop, onWithdrawalCredentialsChanged, hanswer]
  | error lowLevelRevertData =>
    have hlength : lowLevelRevertData.length ≠ 0 := by
      intro hzero
      rw [List.length_eq_zero_iff.mp hzero] at hanswer
      exact hdata hanswer
    refine ⟨s.setStatus i .depositsPaused, world, ⟨?_, ?_⟩, ?_⟩
    · rw [hanswer, informed, setStatus_eq]
    · rw [answered, hanswer, ModuleWorld.set, Function.update_eq_self]
    · rw [credentialsLoop, onWithdrawalCredentialsChanged, hanswer]
      simp only
      rw [require_of hlength, ok_bind]

/-- The induction is over the modules that are left. -/
theorem informed_credentialsLoop {is : List Nat} (hnodup : is.Nodup)
    (hdistinct : ∀ i ∈ is, ∀ j ∈ is, s.addressOf i = s.addressOf j → i = j)
    (hdata : ∀ i ∈ is, answer env (s.addressOf i) (world.registries (s.addressOf i)) ≠ .error []) :
    ∃ s' world', credentialsLoop (onWithdrawalCredentialsChanged env) is s world
        = .ok (s', world') ∧ Informed env is s s' world world' := by
  induction is generalizing s world with
  | nil =>
    refine ⟨s, world, rfl, rfl, rfl, ?_, fun _ _ => rfl, ?_, fun _ _ => rfl⟩
    all_goals exact fun i hi => absurd hi List.not_mem_nil
  | cons i is ih =>
    obtain ⟨hi, hnodup⟩ := List.nodup_cons.mp hnodup
    obtain ⟨s₁, world₁, hanswered, hloop⟩ :=
      credentialsLoop_cons is (hdata i List.mem_cons_self)
    have hne : ∀ j ∈ is, j ≠ i := fun j hj heq => hi (heq ▸ hj)
    have haddress : ∀ j ∈ is, s.addressOf j ≠ s.addressOf i := fun j hj heq =>
      hne j hj (hdistinct j (List.mem_cons_of_mem _ hj) i List.mem_cons_self heq)
    have hother := fun j hj => hanswered.answer_eq (hne j hj) (haddress j hj)
    obtain ⟨s', world', hrest, hinformed⟩ := ih hnodup (fun j hj k hk heq => by
      rw [(hother j hj).1, (hother k hk).1] at heq
      exact hdistinct j (List.mem_cons_of_mem _ hj) k (List.mem_cons_of_mem _ hk) heq)
      fun j hj => by
        rw [(hother j hj).2, (hother j hj).1]
        exact hdata j (List.mem_cons_of_mem _ hj)
    exact ⟨s', world', hloop.trans hrest, hinformed.cons hi haddress hanswered⟩

/-- A revert without data is the revert of the call. -/
theorem credentialsLoop_of_outOfGas {is : List Nat} (hnodup : is.Nodup)
    (hdistinct : ∀ i ∈ is, ∀ j ∈ is, s.addressOf i = s.addressOf j → i = j) {i : Nat} (hi : i ∈ is)
    (hnone : answer env (s.addressOf i) (world.registries (s.addressOf i)) = .error []) :
    credentialsLoop (onWithdrawalCredentialsChanged env) is s world
      = .error (.error .unrecoverableModuleError) := by
  induction is generalizing s world with
  | nil => exact absurd hi List.not_mem_nil
  | cons j is ih =>
    by_cases hdata : answer env (s.addressOf j) (world.registries (s.addressOf j)) = .error []
    · unfold credentialsLoop onWithdrawalCredentialsChanged
      rw [hdata]
      rfl
    · obtain ⟨hj, hnodup⟩ := List.nodup_cons.mp hnodup
      obtain ⟨s₁, world₁, hanswered, hloop⟩ := credentialsLoop_cons is hdata
      have hi : i ∈ is := (List.mem_cons.mp hi).resolve_left fun heq => hdata (heq ▸ hnone)
      have hne : ∀ k ∈ is, k ≠ j := fun k hk heq => hj (heq ▸ hk)
      have haddress : ∀ k ∈ is, s.addressOf k ≠ s.addressOf j := fun k hk heq =>
        hne k hk (hdistinct k (List.mem_cons_of_mem _ hk) j List.mem_cons_self heq)
      have hother := fun k hk => hanswered.answer_eq (hne k hk) (haddress k hk)
      rw [hloop]
      refine ih hnodup (fun k hk l hl heq => ?_) hi ?_
      · rw [(hother k hk).1, (hother l hl).1] at heq
        exact hdistinct k (List.mem_cons_of_mem _ hk) l (List.mem_cons_of_mem _ hl) heq
      · rw [(hother i hi).2, (hother i hi).1]
        exact hnone

/-! ## Different modules have different addresses -/

def Distinct (s : StakingRouter) : Prop :=
  ∀ i < s.stakingModulesCount, ∀ j < s.stakingModulesCount, s.addressOf i = s.addressOf j → i = j

theorem Distinct.of_same (h : Distinct s) (hcount : s'.stakingModulesCount = s.stakingModulesCount)
    (haddress : ∀ i, s'.addressOf i = s.addressOf i) : Distinct s' := by
  intro i hi j hj heq
  rw [hcount] at hi hj
  rw [haddress, haddress] at heq
  exact h i hi j hj heq

theorem addressOf_setStakingModule {index : Nat} {m : StakingModule}
    (hm : m.stakingModuleAddress = s.addressOf index) (i : Nat) :
    (s.setStakingModule index m).addressOf i = s.addressOf i := by
  unfold addressOf setStakingModule
  by_cases hi : i = index
  · subst hi
    simp only [Function.update_self]
    exact hm
  · simp only [Function.update_of_ne hi]

theorem Distinct.run (h : Distinct s) {ε : Type} {routerEnv : RouterEnv} {call : ManagementCall}
    (hrun : (s.run routerEnv call : Call (RouterError ε) StakingRouter) = .ok s') : Distinct s' := by
  rcases run_ok_cases hrun with ⟨m, hadded⟩ | ⟨index, m, hchanged⟩
  · have hnew := hadded.address_ne
    rw [hadded.router]
    intro i hi j hj heq
    simp only [addressOf, Function.update_apply] at hi hj heq
    -- the new module is the last one
    split at heq <;> split at heq
    · omega
    · exact absurd heq (hnew j (by omega))
    · exact absurd heq.symm (hnew i (by omega))
    · exact h i (by omega) j (by omega) heq
  · rw [hchanged.router]
    exact h.of_same rfl (addressOf_setStakingModule hchanged.address)

theorem withdrawalCredentials_of_run {ε : Type} {routerEnv : RouterEnv} {call : ManagementCall}
    (h : (s.run routerEnv call : Call (RouterError ε) StakingRouter) = .ok s') :
    s'.withdrawalCredentials = s.withdrawalCredentials := by
  rcases run_ok_cases h with ⟨m, hadded⟩ | ⟨index, m, hchanged⟩
  · rw [hadded.router]
  · rw [hchanged.router]
    rfl

/-- What a change of the credentials does. -/
theorem setWithdrawalCredentials_ok_cases (hdistinct : s.Distinct) {hasManageRole : Address → Bool}
    {routerEnv : RouterEnv} {withdrawalCredentials : BitVec 256}
    (h : s.setWithdrawalCredentials (onWithdrawalCredentialsChanged env) hasManageRole routerEnv
      withdrawalCredentials world = .ok (s', world')) :
    hasManageRole routerEnv.sender = true ∧
    (∀ i < s.stakingModulesCount,
      answer env (s.addressOf i) (world.registries (s.addressOf i)) ≠ .error []) ∧
    Informed env (List.range s.stakingModulesCount)
      { s with withdrawalCredentials := withdrawalCredentials } s' world world' := by
  simp only [setWithdrawalCredentials, bind_eq_ok, require_eq_ok] at h
  obtain ⟨_, hrole, hloop⟩ := h
  have hdistinct' : ∀ i ∈ List.range s.stakingModulesCount,
      ∀ j ∈ List.range s.stakingModulesCount, s.addressOf i = s.addressOf j → i = j :=
    fun i hi j hj => hdistinct i (List.mem_range.mp hi) j (List.mem_range.mp hj)
  have hdata : ∀ i ∈ List.range s.stakingModulesCount,
      answer env (s.addressOf i) (world.registries (s.addressOf i)) ≠ .error [] := by
    intro i hi hnone
    have hreverts := credentialsLoop_of_outOfGas
      (s := { s with withdrawalCredentials := withdrawalCredentials }) List.nodup_range hdistinct'
      hi hnone
    rw [hreverts] at hloop
    cases hloop
  obtain ⟨s₁, world₁, hok, hinformed⟩ := informed_credentialsLoop
    (s := { s with withdrawalCredentials := withdrawalCredentials }) List.nodup_range hdistinct' hdata
  rw [hok] at hloop
  cases hloop
  exact ⟨hrole, fun i hi => hdata i (List.mem_range.mpr hi), hinformed⟩

/-! ## What has become of a module -/

section

variable {is : List Nat} (h : Informed env is s s' world world')

include h

theorem Informed.registry_cases (addr : Address) :
    world'.registries addr = world.registries addr ∨
      world'.registries addr = answered env addr (world.registries addr) := by
  by_cases hasked : ∃ i ∈ is, s.addressOf i = addr
  · obtain ⟨i, hi, rfl⟩ := hasked
    exact .inr (h.registry i hi)
  · exact .inl (h.other_registry addr fun i hi heq => hasked ⟨i, hi, heq⟩)

/-- A registry that answers is as its answer says. -/
theorem Informed.registry_of_ok {i : Nat} (hi : i ∈ is) {registry : NodeOperatorsRegistry}
    (hanswer : answer env (s.addressOf i) (world.registries (s.addressOf i)) = .ok registry) :
    world'.registries (s.addressOf i) = registry := by
  rw [h.registry i hi, answered, hanswer]

/-- One that fails is as it was, and its module is paused. -/
theorem Informed.paused {i : Nat} (hi : i ∈ is) {lowLevelRevertData : Bytes}
    (hanswer : answer env (s.addressOf i) (world.registries (s.addressOf i))
      = .error lowLevelRevertData) :
    (s'.stakingModules i).status = .depositsPaused ∧
      world'.registries (s.addressOf i) = world.registries (s.addressOf i) := by
  rw [h.module i hi, h.registry i hi, answered, hanswer]
  exact ⟨rfl, rfl⟩

end

/-! ## What no change can do -/

theorem sameExited_setStatus_depositsPaused (s : StakingRouter) (i : Nat) :
    SameModules s (s.setStatus i .depositsPaused) ∧ SameExited s (s.setStatus i .depositsPaused) := by
  rw [setStatus_eq]
  refine ⟨sameModules_setStakingModule rfl rfl (fun h => ⟨h.targetShare_le, h.fees_le⟩) ?_,
    sameExited_setStakingModule rfl rfl rfl⟩
  intro hactive
  cases hactive

theorem called_of_onWithdrawalCredentialsChanged {getKeyOffset : Nat → Nat → BitVec 256}
    {addr : Address} (h : onWithdrawalCredentialsChanged env world addr = .ok world') :
    Called getKeyOffset world world' := by
  unfold onWithdrawalCredentialsChanged at h
  split at h
  · next registry hanswer =>
    cases h
    exact called_update
      ⟨env.toRegistryEnv, .onWithdrawalCredentialsChanged, answer_eq_ok hanswer⟩ rfl
  · cases h

/-- Whatever the addresses are, modules are only paused, and registries only called. -/
theorem sameModules_credentialsLoop (getKeyOffset : Nat → Nat → BitVec 256) {is : List Nat}
    (h : credentialsLoop (onWithdrawalCredentialsChanged env) is s world = .ok (s', world')) :
    SameModules s s' ∧ SameExited s s' ∧ Called getKeyOffset world world' := by
  induction is generalizing s world with
  | nil =>
    cases h
    exact ⟨.refl _, (SameModules.refl _).sameExited fun _ => rfl, called_of_eq rfl⟩
  | cons i is ih =>
    unfold credentialsLoop at h
    split at h
    · next world₁ hchanged =>
      obtain ⟨hsame, hexited, hcalled⟩ := ih h
      exact ⟨hsame, hexited, (called_of_onWithdrawalCredentialsChanged hchanged).trans hcalled⟩
    · simp only [bind_eq_ok] at h
      obtain ⟨_, -, hrest⟩ := h
      obtain ⟨hsame, hexited, hcalled⟩ := ih hrest
      obtain ⟨hpaused, hkept⟩ := sameExited_setStatus_depositsPaused s i
      exact ⟨hpaused.trans hsame, hkept.trans hexited, hcalled⟩

theorem sameModules_of_setWithdrawalCredentials (getKeyOffset : Nat → Nat → BitVec 256)
    {hasManageRole : Address → Bool} {routerEnv : RouterEnv} {withdrawalCredentials : BitVec 256}
    (h : s.setWithdrawalCredentials (onWithdrawalCredentialsChanged env) hasManageRole routerEnv
      withdrawalCredentials world = .ok (s', world')) :
    SameModules s s' ∧ SameExited s s' ∧ Called getKeyOffset world world' := by
  simp only [setWithdrawalCredentials, bind_eq_ok] at h
  obtain ⟨_, -, hloop⟩ := h
  obtain ⟨hsame, hexited, hcalled⟩ := sameModules_credentialsLoop getKeyOffset hloop
  have hset : SameModules s { s with withdrawalCredentials := withdrawalCredentials } :=
    ⟨⟨rfl, rfl, rfl, fun _ => rfl, fun _ => id, fun _ => id⟩, fun _ => rfl⟩
  exact ⟨hset.trans hsame, (hset.sameExited fun _ => rfl).trans hexited, hcalled⟩

end StakingRouter

end Catalist
