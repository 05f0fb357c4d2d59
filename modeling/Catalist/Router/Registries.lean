import Catalist.Registry.DepositOnce
import Catalist.Router.Deposits

/-!
# A router whose modules are registries

The callees of the router when every staking module is a `NodeOperatorsRegistry`, and what the calls
do to these registries: each is made of calls of them.
-/

namespace Catalist

open Solidity Transition Finset

/-- The registries by their addresses, and the state of the deposit contract. -/
structure ModuleWorld (δ : Type) where
  registries : Address → NodeOperatorsRegistry
  depositContract : δ

/-- The revert of a registry, or of the deposit contract. -/
inductive CalleeError (ε : Type) where
  | registry (e : RegistryError)
  | depositContract (e : ε)
deriving DecidableEq, Repr

namespace ModuleWorld

variable {ε δ : Type} (world : ModuleWorld δ)

def set (addr : Address) (registry : NodeOperatorsRegistry) : ModuleWorld δ :=
  { world with registries := Function.update world.registries addr registry }

/--
The calls that a transaction makes. A registry does not look at the calldata of a deposit; the answers
of its access control list are those of `env`.
-/
def registryCallees (getKeyOffset : Nat → Nat → BitVec 256) (env : RegistryEnv)
    (depositInto : δ → Bytes → Bytes → Bytes → Call ε δ) :
    RouterCallees (CalleeError ε) (ModuleWorld δ) where
  getStakingModuleSummary world addr := do
    let (exited, deposited, depositable) ← within .registry
      (world.registries addr).getStakingModuleSummary
    return ⟨exited, deposited, depositable⟩
  obtainDepositData world addr depositsCount _ := do
    let (registry, publicKeys, signatures) ← within .registry
      ((world.registries addr).obtainDepositData getKeyOffset env depositsCount)
    return (world.set addr registry, publicKeys, signatures)
  deposit world publicKey withdrawalCredentials signature := do
    let depositContract ← within .depositContract
      (depositInto world.depositContract publicKey withdrawalCredentials signature)
    return { world with depositContract := depositContract }

/-- Every registry is as its own calls have left it. -/
def Reached (getKeyOffset : Nat → Nat → BitVec 256) (world : ModuleWorld δ) : Prop :=
  ∀ addr, Reachable NodeOperatorsRegistry.Initial (NodeOperatorsRegistry.Step getKeyOffset)
    (world.registries addr)

/-- What has changed in the registries has been changed by calls of them. -/
def Called (getKeyOffset : Nat → Nat → BitVec 256) (world world' : ModuleWorld δ) : Prop :=
  ∀ addr, Reachable (· = world.registries addr) (NodeOperatorsRegistry.Step getKeyOffset)
    (world'.registries addr)

variable {world} {world' : ModuleWorld δ} {getKeyOffset : Nat → Nat → BitVec 256} {env : RegistryEnv}
  {depositInto : δ → Bytes → Bytes → Bytes → Call ε δ} {addr : Address}

theorem called_of_eq (h : world'.registries = world.registries) : Called getKeyOffset world world' := by
  intro addr
  rw [h]
  exact .init rfl

theorem Called.trans {world'' : ModuleWorld δ} (h : Called getKeyOffset world world')
    (h' : Called getKeyOffset world' world'') : Called getKeyOffset world world'' :=
  fun addr => (h addr).trans (h' addr)

/-- One call of one registry. -/
theorem called_update {registry : NodeOperatorsRegistry}
    (h : NodeOperatorsRegistry.Step getKeyOffset (world.registries addr) registry)
    (hregistries : world'.registries = Function.update world.registries addr registry) :
    Called getKeyOffset world world' := by
  intro addr'
  rw [hregistries]
  by_cases haddr : addr' = addr
  · subst haddr
    rw [Function.update_self]
    exact .single h
  · rw [Function.update_of_ne haddr]
    exact .init rfl

theorem Reached.called (h : Reached getKeyOffset world)
    (hcalled : Called getKeyOffset world world') : Reached getKeyOffset world' :=
  fun addr => (h addr).trans (hcalled addr)

/-! ## Deposits -/

theorem deposit_eq_ok {publicKey withdrawalCredentials signature : Bytes} :
    (registryCallees getKeyOffset env depositInto).deposit world publicKey withdrawalCredentials
        signature = .ok world' ↔
      ∃ d, depositInto world.depositContract publicKey withdrawalCredentials signature = .ok d ∧
        world' = { world with depositContract := d } := by
  simp only [registryCallees, bind_eq_ok, within_eq_ok, pure_eq_ok]
  exact exists_congr fun _ => and_congr_right fun _ => eq_comm

theorem obtainDepositData_eq_ok {n : Nat} {depositCalldata keys signatures : Bytes} :
    (registryCallees getKeyOffset env depositInto).obtainDepositData world addr n depositCalldata
        = .ok (world', keys, signatures) ↔
      ∃ registry, (world.registries addr).obtainDepositData getKeyOffset env n
          = .ok (registry, keys, signatures) ∧ world' = world.set addr registry := by
  simp only [registryCallees, bind_eq_ok, within_eq_ok, pure_eq_ok, Prod.mk.injEq]
  constructor
  · rintro ⟨⟨registry, _, _⟩, hobtain, rfl, rfl, rfl⟩
    exact ⟨registry, hobtain, rfl⟩
  · rintro ⟨registry, hobtain, rfl⟩
    exact ⟨⟨registry, keys, signatures⟩, hobtain, rfl, rfl, rfl⟩

/-- The deposit contract does not know the registries. -/
theorem registries_depositLoop {withdrawalCredentials keys signatures : Bytes} {is : List Nat}
    {balance balance' : Nat}
    (h : StakingRouter.depositLoop (registryCallees getKeyOffset env depositInto)
      withdrawalCredentials keys signatures is balance world = .ok (balance', world')) :
    world'.registries = world.registries := by
  induction is generalizing balance world with
  | nil =>
    simp only [StakingRouter.depositLoop, pure_eq_ok, Prod.mk.injEq] at h
    obtain ⟨-, rfl⟩ := h
    rfl
  | cons i is ih =>
    simp only [StakingRouter.depositLoop, bind_eq_ok, within_eq_ok] at h
    obtain ⟨_, -, world₁, hdeposit, hrest⟩ := h
    obtain ⟨d, -, rfl⟩ := deposit_eq_ok.mp hdeposit
    rw [ih hrest]

/-- A deposit is one call of the module's registry, unless it is of no validators. -/
theorem deposit_ok_cases {s s' : StakingRouter} {routerEnv : RouterEnv} {n id : Nat}
    {depositCalldata : Bytes}
    (h : s.deposit (registryCallees getKeyOffset env depositInto) routerEnv n id depositCalldata world
      = .ok (s', world')) :
    ∃ index, s.stakingModuleIndicesOneBased id = index + 1 ∧
      s' = s.setStakingModule index (StakingRouter.noted (s.stakingModules index) routerEnv) ∧
      (n = 0 → world' = world) ∧
      (0 < n → ∃ registry keys signatures,
        (world.registries (s.stakingModules index).stakingModuleAddress).obtainDepositData
          getKeyOffset env n = .ok (registry, keys, signatures) ∧
        world'.registries = Function.update world.registries
          (s.stakingModules index).stakingModuleAddress registry) := by
  obtain ⟨index, hindex, -, -, hs', hnone, hsome⟩ := StakingRouter.deposit_ok_cases h
  refine ⟨index, hindex, hs', hnone, fun hn => ?_⟩
  obtain ⟨world₁, keys, signatures, hobtain, balance, hloop⟩ := hsome hn
  obtain ⟨registry, hcall, rfl⟩ := obtainDepositData_eq_ok.mp hobtain
  refine ⟨registry, keys, signatures, hcall, ?_⟩
  rw [registries_depositLoop hloop]
  rfl

theorem called_deposit {s s' : StakingRouter} {routerEnv : RouterEnv} {n id : Nat}
    {depositCalldata : Bytes}
    (h : s.deposit (registryCallees getKeyOffset env depositInto) routerEnv n id depositCalldata world
      = .ok (s', world')) : Called getKeyOffset world world' := by
  obtain ⟨index, -, -, hnone, hsome⟩ := deposit_ok_cases h
  rcases Nat.eq_zero_or_pos n with hn | hn
  · rw [hnone hn]
    exact called_of_eq rfl
  · obtain ⟨registry, keys, signatures, hobtain, hregistries⟩ := hsome hn
    refine called_update ⟨env, .obtainDepositData n, ?_⟩ hregistries
    show Prod.fst <$> _ = _
    rw [hobtain]
    rfl

/-! ## The totals of a registry -/

def exitedTotal (world : ModuleWorld δ) (addr : Address) : Nat :=
  (world.registries addr).sumOver NodeOperator.exited

def depositedTotal (world : ModuleWorld δ) (addr : Address) : Nat :=
  (world.registries addr).sumOver NodeOperator.deposited

theorem getStakingModuleSummary_eq (h : Reached getKeyOffset world) :
    (registryCallees getKeyOffset env depositInto).getStakingModuleSummary world addr
      = .ok ⟨world.exitedTotal addr, world.depositedTotal addr,
          (world.registries addr).sumOver NodeOperatorsRegistry.depositable⟩ := by
  have hinvariant := NodeOperatorsRegistry.invariant_of_reachable (h addr)
  have hexited := hinvariant.exited
  have hdeposited := hinvariant.deposited
  rw [Nat.add_zero] at hdeposited
  unfold registryCallees
  simp only
  rw [NodeOperatorsRegistry.getStakingModuleSummary_eq hinvariant, hexited, hdeposited]
  rfl

theorem exitedTotal_le (h : Reached getKeyOffset world) :
    world.exitedTotal addr ≤ world.depositedTotal addr := by
  have hinvariant := NodeOperatorsRegistry.invariant_of_reachable (h addr)
  exact NodeOperatorsRegistry.sumOver_le fun id => (hinvariant.wellFormed id).exited_le_deposited

/-- The summary counts the deposits of a registry in 64 bits. -/
theorem depositedTotal_lt (h : Reached getKeyOffset world) :
    world.depositedTotal addr < 2 ^ 64 := by
  have hinvariant := NodeOperatorsRegistry.invariant_of_reachable (h addr)
  have hdeposited := hinvariant.deposited
  unfold depositedTotal
  rw [Nat.add_zero] at hdeposited
  rw [← hdeposited]
  exact Packed.get_lt

end ModuleWorld

namespace NodeOperatorsRegistry

variable {s s' : NodeOperatorsRegistry} {getKeyOffset : Nat → Nat → BitVec 256}

/-- Operators that were not added yet have no deposits. -/
theorem sumOver_deposited_eq (h : Invariant s) {n : Nat} (hn : s.totalOperatorsCount ≤ n) :
    s.sumOver NodeOperator.deposited = ∑ id ∈ range n, (s.operators id).deposited := by
  refine sum_subset (range_subset_range.mpr hn) fun id _ hid => ?_
  exact (h.blank id (Nat.le_of_not_lt fun hlt => hid (mem_range.mpr hlt))).deposited

/-- The deposits of a registry never become less. -/
theorem sumOver_deposited_le_of_step (h : Invariant s) (hs : Step getKeyOffset s s') :
    s.sumOver NodeOperator.deposited ≤ s'.sumOver NodeOperator.deposited := by
  obtain ⟨env, action, hrun⟩ := hs
  have hgrown := (ensures_run h).of_ok hrun
  rw [sumOver_deposited_eq h (Nat.le_max_left _ s'.totalOperatorsCount),
    sumOver_deposited_eq hgrown.invariant (Nat.le_max_right s.totalOperatorsCount _)]
  exact sum_le_sum fun id _ => hgrown.deposited_le id

/-- The induction is over the calls that follow. -/
theorem sumOver_deposited_le_of_reachable
    (h : Reachable NodeOperatorsRegistry.Initial (Step getKeyOffset) s)
    (hlater : Reachable (· = s) (Step getKeyOffset) s') :
    s.sumOver NodeOperator.deposited ≤ s'.sumOver NodeOperator.deposited := by
  induction hlater with
  | init heq => rw [heq]
  | step hrun hs ih =>
    exact ih.trans (sumOver_deposited_le_of_step (invariant_of_reachable (h.trans hrun)) hs)

end NodeOperatorsRegistry

namespace ModuleWorld

variable {δ : Type} {world world' : ModuleWorld δ} {getKeyOffset : Nat → Nat → BitVec 256}

theorem Called.depositedTotal_le (hcalled : Called getKeyOffset world world')
    (h : Reached getKeyOffset world) (addr : Address) :
    world.depositedTotal addr ≤ world'.depositedTotal addr :=
  NodeOperatorsRegistry.sumOver_deposited_le_of_reachable (h addr) (hcalled addr)

end ModuleWorld

end Catalist
