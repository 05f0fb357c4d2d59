import Catalist.Pool.BACE
import Catalist.Registry.Steps

/-!
# The upgrade of the registry

`finalizeUpgrade_v2` of `NodeOperatorsRegistry.sol`. In version 1 the staking limit of an operator
could be below its deposited keys or above all of its keys, an inactive operator kept its limit, and
there was no summary. The upgrade trims the limits to vetted keys and sums the counters up, in one
loop over all operators. From then on the invariant of the registry holds
(`finalizeUpgradeV2_exact`).
-/

namespace Catalist

open Solidity Transition Finset

inductive UpgradeError (ε : Type) where
  | registry (e : RegistryError)
  | contractNotInitialized
  | unexpectedContractVersion
  /-- the revert of the locator or of the token -/
  | callee (e : ε)
deriving DecidableEq, Repr

/-- The calls of `_initialize_v2` to other contracts, over their state `ρ`. -/
structure UpgradeCallees (ε ρ : Type) where
  /-- `catalist()` of the locator at an address -/
  catalist : ρ → Address → Call ε Address
  /-- `burner()` of the locator at an address -/
  burner : ρ → Address → Call ε Address
  /-- `approve` of the token at an address, for a spender and an amount, called by the registry -/
  approve : ρ → Address → Address → Nat → Call ε ρ

/-- The registry with what `_initialize_v2` writes besides. -/
structure VersionedRegistry extends NodeOperatorsRegistry where
  /-- `hasInitialized()` -/
  initialized : Bool
  contractVersion : Nat
  catalistLocator : Address
  moduleType : BitVec 256

namespace NodeOperatorsRegistry

variable (s : NodeOperatorsRegistry)

/-- `vettedSigningKeysCountAfter` of an operator -/
def vettedSigningKeysCountAfter (nodeOperatorId : Nat) : Nat :=
  let signingKeysStats := (s.operators nodeOperatorId).signingKeysStats
  let vettedSigningKeysCountBefore := signingKeysStats.get TOTAL_VETTED_KEYS_COUNT_OFFSET
  let totalSigningKeysCount := signingKeysStats.get TOTAL_KEYS_COUNT_OFFSET
  let depositedSigningKeysCount := signingKeysStats.get TOTAL_DEPOSITED_KEYS_COUNT_OFFSET
  if (s.operators nodeOperatorId).active = false then depositedSigningKeysCount
  else min totalSigningKeysCount (max depositedSigningKeysCount vettedSigningKeysCountBefore)

/-- The vetted keys are only written if their number changes. -/
def trimVettedSigningKeys (nodeOperatorId vettedSigningKeysCountAfter : Nat) :
    Call RegistryError NodeOperatorsRegistry := do
  let signingKeysStats := (s.operators nodeOperatorId).signingKeysStats
  if signingKeysStats.get TOTAL_VETTED_KEYS_COUNT_OFFSET ≠ vettedSigningKeysCountAfter then do
    let signingKeysStats ← within .packed
      (signingKeysStats.set TOTAL_VETTED_KEYS_COUNT_OFFSET vettedSigningKeysCountAfter)
    return s.saveOperatorSigningKeysStats nodeOperatorId signingKeysStats
  else return s

/-- A round of the loop of `finalizeUpgrade_v2`, with the summary so far. -/
def upgradeOperator (nodeOperatorId : Nat) (summarySigningKeysStats : Packed) :
    Call RegistryError (NodeOperatorsRegistry × Packed) := do
  let vettedSigningKeysCountAfter := s.vettedSigningKeysCountAfter nodeOperatorId
  let s ← s.trimVettedSigningKeys nodeOperatorId vettedSigningKeysCountAfter
  let operatorTargetStats ← within .packed
    ((s.operators nodeOperatorId).targetValidatorsStats.set MAX_VALIDATORS_COUNT_OFFSET
      vettedSigningKeysCountAfter)
  let s := s.saveOperatorTargetValidatorsStats nodeOperatorId operatorTargetStats
  let signingKeysStats := (s.operators nodeOperatorId).signingKeysStats
  let summarySigningKeysStats ← within .packed (summarySigningKeysStats.add
    SUMMARY_MAX_VALIDATORS_COUNT_OFFSET vettedSigningKeysCountAfter)
  let summarySigningKeysStats ← within .packed (summarySigningKeysStats.add
    SUMMARY_DEPOSITED_KEYS_COUNT_OFFSET (signingKeysStats.get TOTAL_DEPOSITED_KEYS_COUNT_OFFSET))
  let summarySigningKeysStats ← within .packed (summarySigningKeysStats.add
    SUMMARY_EXITED_KEYS_COUNT_OFFSET (signingKeysStats.get TOTAL_EXITED_KEYS_COUNT_OFFSET))
  let summarySigningKeysStats ← within .packed (summarySigningKeysStats.add
    SUMMARY_TOTAL_KEYS_COUNT_OFFSET (signingKeysStats.get TOTAL_KEYS_COUNT_OFFSET))
  return (s, summarySigningKeysStats)

/-- The loop from an operator on, for a number of operators. -/
def upgradeLoop : Nat → Nat → NodeOperatorsRegistry → Packed →
    Call RegistryError (NodeOperatorsRegistry × Packed)
  | 0, _, s, summarySigningKeysStats => return (s, summarySigningKeysStats)
  | n + 1, nodeOperatorId, s, summarySigningKeysStats => do
    let (s, summarySigningKeysStats) ← s.upgradeOperator nodeOperatorId summarySigningKeysStats
    upgradeLoop n (nodeOperatorId + 1) s summarySigningKeysStats

end NodeOperatorsRegistry

namespace VersionedRegistry

section

variable {ε ρ : Type} (callees : UpgradeCallees ε ρ) (x : VersionedRegistry)

/-- The unlimited allowance of the burner, at the end of `_initialize_v2`. -/
def approveBurner (world : ρ) (locator : Address) : Call ε ρ := do
  let token ← callees.catalist world locator
  let burner ← callees.burner world locator
  callees.approve world token burner (2 ^ 256 - 1)

/-- `_initialize_v2` -/
def initializeV2 (locator : Address) (moduleType : BitVec 256) (stuckPenaltyDelay : Nat)
    (world : ρ) : Call (UpgradeError ε) (VersionedRegistry × ρ) := do
  within .registry (NodeOperatorsRegistry.onlyNonZeroAddress locator)
  let s ← within .registry (x.setStuckPenaltyDelayInternal stuckPenaltyDelay)
  let world ← within .callee (approveBurner callees world locator)
  return ({ x with
    toNodeOperatorsRegistry := s
    catalistLocator := locator
    moduleType := moduleType
    contractVersion := 2 }, world)

/-- `finalizeUpgrade_v2` -/
def finalizeUpgradeV2 (locator : Address) (moduleType : BitVec 256) (stuckPenaltyDelay : Nat)
    (world : ρ) : Call (UpgradeError ε) (VersionedRegistry × ρ) := do
  require (x.initialized = true) .contractNotInitialized
  require (x.contractVersion = 0) .unexpectedContractVersion
  let (x, world) ← x.initializeV2 callees locator moduleType stuckPenaltyDelay world
  let (s, summarySigningKeysStats) ← within .registry
    (NodeOperatorsRegistry.upgradeLoop x.totalOperatorsCount 0 x.toNodeOperatorsRegistry ⟨0⟩)
  let s := s.saveSummarySigningKeysStats summarySigningKeysStats
  return ({ x with toNodeOperatorsRegistry := s.increaseValidatorsKeysNonce }, world)

end

end VersionedRegistry

namespace NodeOperatorsRegistry

variable {s s₀ : NodeOperatorsRegistry} {k : Nat} {summary : Packed}

/-! ## One operator -/

/-- What version 1 kept of the operators; the words of version 2 are empty. -/
structure Legacy (s : NodeOperatorsRegistry) : Prop where
  exited_le_deposited : ∀ id, (s.operators id).exited ≤ (s.operators id).deposited
  deposited_le_total : ∀ id, (s.operators id).deposited ≤ (s.operators id).total
  stuckPenaltyStats : ∀ id, (s.operators id).stuckPenaltyStats = ⟨0⟩
  targetValidatorsStats : ∀ id, (s.operators id).targetValidatorsStats = ⟨0⟩
  blank : ∀ id, s.totalOperatorsCount ≤ id → (s.operators id).Blank
  active : s.activeOperatorsCount = s.sumOver NodeOperator.activity
  totalOperatorsCount_le : s.totalOperatorsCount ≤ MAX_NODE_OPERATORS_COUNT

/-- The number of vetted keys after the upgrade. -/
theorem vettedSigningKeysCountAfter_eq (id : Nat) : s.vettedSigningKeysCountAfter id =
    if (s.operators id).active = false then (s.operators id).deposited
    else min (s.operators id).total (max (s.operators id).deposited (s.operators id).vetted) := rfl

theorem Legacy.deposited_le_after (h : Legacy s) (id : Nat) :
    (s.operators id).deposited ≤ s.vettedSigningKeysCountAfter id := by
  rw [vettedSigningKeysCountAfter_eq]
  split
  · exact Nat.le_refl _
  · exact Nat.le_min.mpr ⟨h.deposited_le_total id, Nat.le_max_left _ _⟩

theorem Legacy.after_le_total (h : Legacy s) (id : Nat) :
    s.vettedSigningKeysCountAfter id ≤ (s.operators id).total := by
  rw [vettedSigningKeysCountAfter_eq]
  split
  · exact h.deposited_le_total id
  · exact Nat.min_le_left _ _

/-- The operator after its round: the number of its vetted keys was changed, and its maximum. -/
structure Upgraded (op op' : NodeOperator) (vetted : Nat) : Prop where
  active : op'.active = op.active
  rewardAddress : op'.rewardAddress = op.rewardAddress
  name : op'.name = op.name
  stuckPenaltyStats : op'.stuckPenaltyStats = op.stuckPenaltyStats
  signingKeysStats :
    Packed.Updated op.signingKeysStats op'.signingKeysStats TOTAL_VETTED_KEYS_COUNT_OFFSET vetted
  targetValidatorsStats : Packed.Updated op.targetValidatorsStats op'.targetValidatorsStats
    MAX_VALIDATORS_COUNT_OFFSET vetted

section upgraded

variable {op op' : NodeOperator} {n : Nat} (h : Upgraded op op' n)
include h

theorem Upgraded.vetted : op'.vetted = n := h.signingKeysStats.get

theorem Upgraded.exited : op'.exited = op.exited := h.signingKeysStats.get_of_ne _ (by decide)

theorem Upgraded.total : op'.total = op.total := h.signingKeysStats.get_of_ne _ (by decide)

theorem Upgraded.deposited : op'.deposited = op.deposited :=
  h.signingKeysStats.get_of_ne _ (by decide)

theorem Upgraded.maxValidators : op'.maxValidators = n := h.targetValidatorsStats.get

theorem Upgraded.activity : op'.activity = op.activity := by
  unfold NodeOperator.activity
  rw [h.active]

end upgraded

/-- The upgrade makes an operator well formed, with its maximum up to date. -/
theorem Upgraded.wellFormed {id : Nat} {op' : NodeOperator} (hlegacy : Legacy s)
    (h : Upgraded (s.operators id) op' (s.vettedSigningKeysCountAfter id)) : op'.WellFormed := by
  have hstuck : op'.stuck = 0 := by
    rw [NodeOperator.stuck, h.stuckPenaltyStats, hlegacy.stuckPenaltyStats]
    exact NodeOperator.get_zero _
  have hrefunded : op'.refunded = 0 := by
    rw [NodeOperator.refunded, h.stuckPenaltyStats, hlegacy.stuckPenaltyStats]
    exact NodeOperator.get_zero _
  exact {
    exited_add_stuck_le := by
      rw [hstuck, h.exited, h.deposited]
      exact hlegacy.exited_le_deposited id
    refunded_le := hrefunded ▸ Nat.zero_le _
    deposited_le_vetted := by
      rw [h.deposited, h.vetted]
      exact hlegacy.deposited_le_after id
    vetted_le_total := by
      rw [h.total, h.vetted]
      exact hlegacy.after_le_total id
    vetted_of_inactive := fun hinactive => by
      rw [h.active] at hinactive
      rw [h.vetted, h.deposited, vettedSigningKeysCountAfter_eq, if_pos hinactive] }

theorem Upgraded.settled {id : Nat} {op' : NodeOperator} (hlegacy : Legacy s)
    (h : Upgraded (s.operators id) op' (s.vettedSigningKeysCountAfter id)) : op'.Settled := by
  have hstats : op'.stuckPenaltyStats = ⟨0⟩ := h.stuckPenaltyStats.trans (hlegacy.stuckPenaltyStats id)
  have hzero : ∀ n, op'.stuckPenaltyStats.get n = 0 := by
    intro n
    rw [hstats]
    exact NodeOperator.get_zero n
  have htarget : op'.targetActive = 0 := by
    rw [NodeOperator.targetActive, h.targetValidatorsStats.get_of_ne _ (by decide),
      hlegacy.targetValidatorsStats]
    exact NodeOperator.get_zero _
  have hcleared : op'.stuck ≤ op'.refunded ∧ op'.penaltyEnd = 0 :=
    ⟨(hzero _).trans_le (Nat.zero_le _), hzero _⟩
  rw [NodeOperator.Settled, NodeOperator.limit, if_pos hcleared, if_neg (not_not.mpr htarget),
    h.maxValidators, h.vetted]

/-! ## The loop -/

/-- The first `k` operators are upgraded, and the summary sums them up. -/
structure Migrated (s₀ : NodeOperatorsRegistry) (k : Nat) (s : NodeOperatorsRegistry)
    (summary : Packed) : Prop where
  eq : s = { s₀ with operators := s.operators }
  upgraded : ∀ id < k,
    Upgraded (s₀.operators id) (s.operators id) (s₀.vettedSigningKeysCountAfter id)
  rest : ∀ id, k ≤ id → s.operators id = s₀.operators id
  max : summary.get SUMMARY_MAX_VALIDATORS_COUNT_OFFSET
    = ∑ id ∈ range k, s₀.vettedSigningKeysCountAfter id
  deposited : summary.get SUMMARY_DEPOSITED_KEYS_COUNT_OFFSET
    = ∑ id ∈ range k, (s₀.operators id).deposited
  exited : summary.get SUMMARY_EXITED_KEYS_COUNT_OFFSET
    = ∑ id ∈ range k, (s₀.operators id).exited
  total : summary.get SUMMARY_TOTAL_KEYS_COUNT_OFFSET
    = ∑ id ∈ range k, (s₀.operators id).total

theorem migrated_zero (s₀ : NodeOperatorsRegistry) : Migrated s₀ 0 s₀ ⟨0⟩ where
  eq := rfl
  upgraded _ hid := absurd hid (Nat.not_lt_zero _)
  rest _ _ := rfl
  max := NodeOperator.get_zero _
  deposited := NodeOperator.get_zero _
  exited := NodeOperator.get_zero _
  total := NodeOperator.get_zero _

/-- The summary has no room for all keys. -/
def Overfull (s₀ : NodeOperatorsRegistry) (_ : Revert RegistryError) : Prop :=
  UINT64_MAX < s₀.sumOver NodeOperator.total

theorem Migrated.signingKeys (h : Migrated s₀ k s summary) : s.signingKeys = s₀.signingKeys := by
  rw [h.eq]

/-- The sum of a counter that is at most the total has room for one operator more. -/
theorem sum_add_le {f : Nat → Nat} (hf : ∀ id, f id ≤ (s₀.operators id).total)
    (hk : k < s₀.totalOperatorsCount) :
    ∑ id ∈ range k, f id + f k ≤ UINT64_MAX ∨
      ∀ e : PackedError, Overfull s₀ (.error (.packed e)) := by
  rcases Nat.lt_or_ge UINT64_MAX (s₀.sumOver NodeOperator.total) with hfull | hroom
  · exact .inr fun _ => hfull
  · refine .inl (le_trans ?_ hroom)
    rw [← sum_range_succ]
    calc ∑ id ∈ range (k + 1), f id
        ≤ ∑ id ∈ range (k + 1), (s₀.operators id).total := sum_le_sum fun id _ => hf id
      _ ≤ s₀.sumOver NodeOperator.total :=
        sum_le_sum_of_subset (range_mono hk)

theorem ensures_trimVettedSigningKeys {id n : Nat} {allowed : Revert RegistryError → Prop}
    (hn : n ≤ UINT64_MAX) :
    Ensures allowed (s.trimVettedSigningKeys id n) fun s' => ∃ stats,
      s' = s.saveOperatorSigningKeysStats id stats ∧
      Packed.Updated (s.operators id).signingKeysStats stats TOTAL_VETTED_KEYS_COUNT_OFFSET n := by
  unfold trimVettedSigningKeys
  simp only
  split
  · exact (ensures_set (.inl hn)).bind fun stats hstats => ensures_pure ⟨stats, rfl, hstats⟩
  · next hsame =>
    refine ensures_pure ⟨(s.operators id).signingKeysStats, ?_, ⟨not_not.mp hsame, fun _ _ => rfl⟩⟩
    rw [saveOperatorSigningKeysStats, Function.update_eq_self]

/-- One round; it fails only if there are too many keys. -/
theorem ensures_upgradeOperator (hlegacy : Legacy s₀) (h : Migrated s₀ k s summary)
    (hk : k < s₀.totalOperatorsCount) :
    Ensures (Overfull s₀) (s.upgradeOperator k summary) fun r => Migrated s₀ (k + 1) r.1 r.2 := by
  have hop : s.operators k = s₀.operators k := h.rest k (Nat.le_refl k)
  have hafter : s.vettedSigningKeysCountAfter k = s₀.vettedSigningKeysCountAfter k := by
    rw [vettedSigningKeysCountAfter_eq, vettedSigningKeysCountAfter_eq, hop]
  have hfits : s.vettedSigningKeysCountAfter k ≤ UINT64_MAX := by
    rw [hafter]
    exact (hlegacy.after_le_total k).trans Packed.get_le
  have hexited : ∀ id, (s₀.operators id).exited ≤ (s₀.operators id).total := fun id =>
    (hlegacy.exited_le_deposited id).trans (hlegacy.deposited_le_total id)
  unfold upgradeOperator
  refine (ensures_trimVettedSigningKeys hfits).bind ?_
  rintro _ ⟨stats, rfl, hstats⟩
  refine (ensures_set (.inl hfits)).bind fun target htarget => ?_
  simp only [saveOperatorTargetValidatorsStats, saveOperatorSigningKeysStats, Function.update_self,
    hop, hafter] at hstats htarget ⊢
  have hdeposited : stats.get TOTAL_DEPOSITED_KEYS_COUNT_OFFSET = (s₀.operators k).deposited :=
    hstats.get_of_ne _ (by decide)
  have hexitedStats : stats.get TOTAL_EXITED_KEYS_COUNT_OFFSET = (s₀.operators k).exited :=
    hstats.get_of_ne _ (by decide)
  have htotal : stats.get TOTAL_KEYS_COUNT_OFFSET = (s₀.operators k).total :=
    hstats.get_of_ne _ (by decide)
  rw [hdeposited, hexitedStats, htotal]
  refine (ensures_add ?_).bind fun summary₁ h₁ => ?_
  · rw [h.max]
    exact sum_add_le hlegacy.after_le_total hk
  refine (ensures_add ?_).bind fun summary₂ h₂ => ?_
  · rw [h₁.get_of_ne _ (by decide), h.deposited]
    exact sum_add_le hlegacy.deposited_le_total hk
  refine (ensures_add ?_).bind fun summary₃ h₃ => ?_
  · rw [h₂.get_of_ne _ (by decide), h₁.get_of_ne _ (by decide), h.exited]
    exact sum_add_le hexited hk
  refine (ensures_add ?_).bind fun summary₄ h₄ => ensures_pure ?_
  · rw [h₃.get_of_ne _ (by decide), h₂.get_of_ne _ (by decide), h₁.get_of_ne _ (by decide), h.total]
    exact sum_add_le (fun id => Nat.le_refl _) hk
  exact {
    eq := by rw [h.eq]
    upgraded := fun id hid => by
      rcases eq_or_ne id k with rfl | hne
      · simp only [Function.update_self]
        exact ⟨rfl, rfl, rfl, rfl, hstats, htarget⟩
      · simp only [Function.update_of_ne hne]
        exact h.upgraded id (by omega)
    rest := fun id hid => by
      simp only [Function.update_of_ne (Nat.ne_of_gt hid)]
      exact h.rest id (Nat.le_of_succ_le hid)
    max := by
      rw [h₄.get_of_ne _ (by decide), h₃.get_of_ne _ (by decide), h₂.get_of_ne _ (by decide),
        h₁.get, h.max, sum_range_succ]
    deposited := by
      rw [h₄.get_of_ne _ (by decide), h₃.get_of_ne _ (by decide), h₂.get,
        h₁.get_of_ne _ (by decide), h.deposited, sum_range_succ]
    exited := by
      rw [h₄.get_of_ne _ (by decide), h₃.get, h₂.get_of_ne _ (by decide),
        h₁.get_of_ne _ (by decide), h.exited, sum_range_succ]
    total := by
      rw [h₄.get, h₃.get_of_ne _ (by decide), h₂.get_of_ne _ (by decide),
        h₁.get_of_ne _ (by decide), h.total, sum_range_succ] }

theorem ensures_upgradeLoop {n : Nat} (hlegacy : Legacy s₀) (h : Migrated s₀ k s summary)
    (hn : k + n = s₀.totalOperatorsCount) :
    Ensures (Overfull s₀) (upgradeLoop n k s summary)
      fun r => Migrated s₀ s₀.totalOperatorsCount r.1 r.2 := by
  induction n generalizing k s summary with
  | zero =>
    rw [← hn]
    exact ensures_pure h
  | succ n ih =>
    refine (ensures_upgradeOperator hlegacy h (by omega)).bind fun r hr => ?_
    exact ih hr (by omega)

/-- The whole registry after the loop. -/
theorem Migrated.invariant (hlegacy : Legacy s₀) (h : Migrated s₀ s₀.totalOperatorsCount s summary)
    (hdelay : s₀.stuckPenaltyDelay ≤ MAX_STUCK_PENALTY_DELAY) :
    Invariant (s.saveSummarySigningKeysStats summary).increaseValidatorsKeysNonce := by
  have hcount : s.totalOperatorsCount = s₀.totalOperatorsCount := by rw [h.eq]
  have hactive : s.activeOperatorsCount = s₀.activeOperatorsCount := by rw [h.eq]
  have hdelay' : s.stuckPenaltyDelay = s₀.stuckPenaltyDelay := by rw [h.eq]
  have hblank : ∀ id, s₀.totalOperatorsCount ≤ id → (s.operators id).Blank := fun id hid => by
    rw [h.rest id hid]
    exact hlegacy.blank id hid
  -- a counter of the new operators sums up to what the loop has added
  have hsum : ∀ (f : NodeOperator → Nat) (g : Nat → Nat),
      (∀ id < s₀.totalOperatorsCount, f (s.operators id) = g id) →
      ∑ id ∈ range s₀.totalOperatorsCount, g id = s.sumOver f := by
    intro f g hfg
    rw [sumOver, hcount]
    exact sum_congr rfl fun id hid => (hfg id (mem_range.mp hid)).symm
  exact {
    wellFormed := fun id => by
      rcases Nat.lt_or_ge id s₀.totalOperatorsCount with hid | hid
      · exact (h.upgraded id hid).wellFormed hlegacy
      · exact (hblank id hid).wellFormed
    settled := fun id => by
      rcases Nat.lt_or_ge id s₀.totalOperatorsCount with hid | hid
      · exact (h.upgraded id hid).settled hlegacy
      · exact (hblank id hid).settled
    blank := fun id hid => hblank id (hcount ▸ hid)
    max := h.max.trans (hsum _ _ fun id hid => (h.upgraded id hid).maxValidators)
    exited := h.exited.trans (hsum _ _ fun id hid => (h.upgraded id hid).exited)
    total := h.total.trans (hsum _ _ fun id hid => (h.upgraded id hid).total)
    deposited := h.deposited.trans (hsum _ _ fun id hid => (h.upgraded id hid).deposited)
    active := by
      show s.activeOperatorsCount = _
      rw [hactive, hlegacy.active]
      exact hsum _ (fun id => (s₀.operators id).activity) fun id hid => (h.upgraded id hid).activity
    totalOperatorsCount_le := hcount.trans_le hlegacy.totalOperatorsCount_le
    stuckPenaltyDelay_le := hdelay'.trans_le hdelay }

end NodeOperatorsRegistry

namespace VersionedRegistry

open NodeOperatorsRegistry

variable {ε ρ : Type} {callees : UpgradeCallees ε ρ} {x x' : VersionedRegistry} {world world' : ρ}
  {locator : Address} {moduleType : BitVec 256} {stuckPenaltyDelay : Nat}

theorem initializeV2_eq_ok :
    x.initializeV2 callees locator moduleType stuckPenaltyDelay world = .ok (x', world') ↔
    locator ≠ 0 ∧ stuckPenaltyDelay ≤ MAX_STUCK_PENALTY_DELAY ∧
    approveBurner callees world locator = .ok world' ∧
    x' = { x with
      stuckPenaltyDelay := stuckPenaltyDelay
      catalistLocator := locator
      moduleType := moduleType
      contractVersion := 2 } := by
  simp only [initializeV2, onlyNonZeroAddress, setStuckPenaltyDelayInternal, bind_eq_ok,
    within_eq_ok, require_eq_ok, pure_eq_ok, Prod.mk.injEq]
  constructor
  · rintro ⟨_, hlocator, _, ⟨_, hdelay, rfl⟩, _, happrove, rfl, rfl⟩
    exact ⟨hlocator, hdelay, happrove, rfl⟩
  · rintro ⟨hlocator, hdelay, happrove, rfl⟩
    exact ⟨(), hlocator, _, ⟨(), hdelay, rfl⟩, _, happrove, rfl, rfl⟩

/-- What is upgraded is the registry with the new delay. -/
theorem finalizeUpgradeV2_eq_ok :
    x.finalizeUpgradeV2 callees locator moduleType stuckPenaltyDelay world = .ok (x', world') ↔
    x.initialized = true ∧ x.contractVersion = 0 ∧ locator ≠ 0 ∧
    stuckPenaltyDelay ≤ MAX_STUCK_PENALTY_DELAY ∧
    approveBurner callees world locator = .ok world' ∧
    ∃ s summary, upgradeLoop x.totalOperatorsCount 0
        { x.toNodeOperatorsRegistry with stuckPenaltyDelay := stuckPenaltyDelay } ⟨0⟩
        = .ok (s, summary) ∧
      x' = { x with
        toNodeOperatorsRegistry :=
          (s.saveSummarySigningKeysStats summary).increaseValidatorsKeysNonce
        catalistLocator := locator
        moduleType := moduleType
        contractVersion := 2 } := by
  simp only [finalizeUpgradeV2, bind_eq_ok, require_eq_ok, within_eq_ok, Prod.exists,
    initializeV2_eq_ok, pure_eq_ok, Prod.mk.injEq]
  constructor
  · rintro ⟨_, hinitialized, _, hversion, _, _, ⟨hlocator, hdelay, happrove, rfl⟩, s, summary, hloop,
      rfl, rfl⟩
    exact ⟨hinitialized, hversion, hlocator, hdelay, happrove, s, summary, hloop, rfl⟩
  · rintro ⟨hinitialized, hversion, hlocator, hdelay, happrove, s, summary, hloop, rfl⟩
    exact ⟨(), hinitialized, (), hversion, _, _, ⟨hlocator, hdelay, happrove, rfl⟩, s, summary,
      hloop, rfl, rfl⟩

/-- Five keys vetted of three, and one deposited. -/
def exampleStale : NodeOperator :=
  { exampleOperator with
    active := true
    signingKeysStats := ⟨5 + 3 <<< 128 + 1 <<< 192⟩ }

/-- Two keys, both vetted. -/
def exampleStopped : NodeOperator :=
  { exampleOperator with signingKeysStats := ⟨2 + 2 <<< 128⟩ }

def exampleVersion1 : VersionedRegistry where
  toNodeOperatorsRegistry := { exampleFreshRegistry with
    operators := fun id =>
      if id = 0 then exampleStale else if id = 1 then exampleStopped else exampleOperator
    totalOperatorsCount := 2
    activeOperatorsCount := 1 }
  initialized := true
  contractVersion := 0
  catalistLocator := 0
  moduleType := 0

theorem legacy_exampleVersion1 : Legacy exampleVersion1.toNodeOperatorsRegistry := by
  have hoperators : ∀ P : NodeOperator → Prop, P exampleStale → P exampleStopped →
      P exampleOperator → ∀ id, P (exampleVersion1.operators id) := by
    intro P hstale hstopped hblank id
    show P (if id = 0 then exampleStale else if id = 1 then exampleStopped else exampleOperator)
    split
    · exact hstale
    · split
      · exact hstopped
      · exact hblank
  exact {
    exited_le_deposited := hoperators (fun op => op.exited ≤ op.deposited)
      (by decide +kernel) (by decide +kernel) (by decide +kernel)
    deposited_le_total := hoperators (fun op => op.deposited ≤ op.total)
      (by decide +kernel) (by decide +kernel) (by decide +kernel)
    stuckPenaltyStats := hoperators (fun op => op.stuckPenaltyStats = ⟨0⟩) rfl rfl rfl
    targetValidatorsStats := hoperators (fun op => op.targetValidatorsStats = ⟨0⟩) rfl rfl rfl
    blank := fun id hid => by
      have hid : 2 ≤ id := hid
      have heq : exampleVersion1.operators id = exampleOperator := by
        show (if id = 0 then exampleStale else if id = 1 then exampleStopped else exampleOperator)
          = _
        rw [if_neg (by omega), if_neg (by omega)]
      rw [heq]
      exact ⟨rfl, rfl, rfl, rfl⟩
    active := by decide +kernel
    totalOperatorsCount_le := by decide }

def exampleToken : BACE where
  self := 100
  shares _ := 0
  allowances _ _ := 0
  totalShares := 0
  active := true

/--
The locator at 7 knows the token at 100, which the registry at 50 calls, and the burner at 9; a call
of any other address reverts without an error.
-/
def exampleUpgradeCallees : UpgradeCallees (Option PoolError) BACE where
  catalist _ locator := if locator = 7 then .ok 100 else .error (.error none)
  burner _ locator := if locator = 7 then .ok 9 else .error (.error none)
  approve token addr spender amount :=
    if addr = 100 then within some (token.approve 50 spender amount) else .error (.error none)

end VersionedRegistry

end Catalist
