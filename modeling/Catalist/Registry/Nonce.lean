import Catalist.Registry.KeyStorage
import Catalist.Registry.Penalty

/-!
# The nonce of the keys

The nonce should change whenever the deposit data does: the keys of an operator that are ready to be
deposited, or which operators are active. Every function but one increases the nonce when it changes
the deposit data. `updateRefundedValidatorsCount` never increases it, and changes the deposit data
when it takes the refunded number of an operator with ready keys below the stuck one.
-/

namespace Catalist

open Solidity ByteBuffer SigningKeys Transition

namespace NodeOperatorsRegistry

variable {s s' : NodeOperatorsRegistry} {env : RegistryEnv} {id n : Nat} {op : NodeOperator}
  {getKeyOffset : Nat → Nat → BitVec 256}

/-- The keys of an operator that are ready to be deposited, with their indexes. -/
def readyKeys (s : NodeOperatorsRegistry) (getKeyOffset : Nat → Nat → BitVec 256) (id : Nat) :
    List (Nat × SigningKey) :=
  (List.range' (s.operators id).deposited (depositable (s.operators id))).map fun index =>
    (index, storedSigningKey s.signingKeys getKeyOffset id index)

/-- The ready keys of some operator change, or an operator that exists is switched on or off. -/
def DepositDataChanges (getKeyOffset : Nat → Nat → BitVec 256) (s s' : NodeOperatorsRegistry) :
    Prop :=
  ∃ id, s'.readyKeys getKeyOffset id ≠ s.readyKeys getKeyOffset id ∨
    (id < s.totalOperatorsCount ∧ (s'.operators id).active ≠ (s.operators id).active)

/-- The nonce is increased, or the deposit data stays. -/
def Announces (getKeyOffset : Nat → Nat → BitVec 256) (s s' : NodeOperatorsRegistry) : Prop :=
  s'.getNonce = uncheckedAdd s.getNonce 1 ∨ ¬ DepositDataChanges getKeyOffset s s'

/-- The nonce wraps around, but never stays. -/
theorem uncheckedAdd_one_ne (n : Nat) : uncheckedAdd n 1 ≠ n := by
  unfold uncheckedAdd
  omega

theorem Announces.getNonce_ne (h : Announces getKeyOffset s s')
    (hchanges : DepositDataChanges getKeyOffset s s') : s'.getNonce ≠ s.getNonce := by
  rw [h.resolve_right (not_not.mpr hchanges)]
  exact uncheckedAdd_one_ne _

theorem readyKeys_congr (hkeys : s'.signingKeys = s.signingKeys)
    (hdeposited : (s'.operators id).deposited = (s.operators id).deposited)
    (hmax : (s'.operators id).maxValidators = (s.operators id).maxValidators) :
    s'.readyKeys getKeyOffset id = s.readyKeys getKeyOffset id := by
  unfold readyKeys depositable
  rw [hkeys, hdeposited, hmax]

/-- An operator without ready keys. -/
theorem readyKeys_eq_nil (h : (s.operators id).maxValidators ≤ (s.operators id).deposited) :
    s.readyKeys getKeyOffset id = [] := by
  unfold readyKeys depositable
  rw [Nat.sub_eq_zero_of_le h]
  rfl

theorem readyKeys_ne_nil (h : (s.operators id).deposited < (s.operators id).maxValidators) :
    s.readyKeys getKeyOffset id ≠ [] := by
  intro hnil
  have hlength := congrArg List.length hnil
  unfold readyKeys depositable at hlength
  rw [List.length_map, List.length_range', List.length_nil] at hlength
  omega

theorem SameReady.not_changes (h : SameReady s s') : ¬ DepositDataChanges getKeyOffset s s' := by
  rintro ⟨i, hready | ⟨hi, hswitched⟩⟩
  · exact hready (readyKeys_congr h.signingKeys (h.deposited i) (h.maxValidators i))
  · exact hswitched (h.active i hi)

/-! ## What announces a change -/

/-- The induction is over the operators that are left. -/
theorem keysOpIndex_loadAllocatedLoop {ids counts : List Nat} {buffers : Bytes × Bytes}
    {loaded : Nat} :
    Ensures (fun _ => True) (loadAllocatedLoop getKeyOffset env ids counts s buffers loaded)
      fun r => r.1.keysOpIndex = s.keysOpIndex := by
  induction ids generalizing counts s buffers loaded with
  | nil => exact ensures_pure rfl
  | cons id ids ih =>
    cases counts with
    | nil => exact ensures_error trivial
    | cons count counts =>
      unfold loadAllocatedLoop
      simp only
      split
      · exact ih
      · refine (ensures_any _).bind fun _ _ => ?_
        refine (ensures_any _).bind fun stats _ => ?_
        refine onlyTargets_updateSummaryMaxValidatorsCount.bind fun s₁ h₁ => ?_
        exact ih.mono fun _ hr => hr.trans h₁.keysOpIndex

/-- A call that obtains keys increases the nonce, in any state. -/
theorem getNonce_obtainDepositData (hn : n ≠ 0) :
    Ensures (fun _ => True) (s.obtainDepositData getKeyOffset env n)
      fun r => r.1.getNonce = uncheckedAdd s.getNonce 1 := by
  refine ensures_check.bind fun _ _ => ?_
  simp only
  rw [if_neg hn]
  refine (ensures_any _).bind ?_
  rintro ⟨allocated, ids, counts⟩ -
  refine ensures_check.bind fun _ _ => ?_
  have hload : Ensures (fun _ => True)
      (s.loadAllocatedSigningKeys getKeyOffset env allocated ids counts)
      fun r => r.1.keysOpIndex = s.keysOpIndex := by
    refine (ensures_any _).bind fun buffers _ => ?_
    refine keysOpIndex_loadAllocatedLoop.bind fun r hr => ?_
    refine (ensures_any _).bind fun _ _ => ?_
    exact (ensures_any _).bind fun summary _ => ensures_pure hr
  exact hload.bind fun r hr => ensures_pure (congrArg (uncheckedAdd · 1) hr)

/-! ## What changes silently -/

/-- The refunded number of an operator is set, its limits are applied, and the nonce stays. -/
structure Refunded (s s' : NodeOperatorsRegistry) (id n : Nat) : Prop where
  keysOpIndex : s'.keysOpIndex = s.keysOpIndex
  signingKeys : s'.signingKeys = s.signingKeys
  operators_of_ne : ∀ i, i ≠ id → s'.operators i = s.operators i
  active : (s'.operators id).active = (s.operators id).active
  signingKeysStats : (s'.operators id).signingKeysStats = (s.operators id).signingKeysStats
  stuck : (s'.operators id).stuck = (s.operators id).stuck
  refunded : (s'.operators id).refunded = n
  targetActive : (s'.operators id).targetActive = (s.operators id).targetActive
  target : (s'.operators id).target = (s.operators id).target

theorem refunded_updateRefundedValidatorsCount :
    Ensures (fun _ => True) (s.updateRefundedValidatorsCount env id n)
      fun s' => Refunded s s' id n := by
  refine ensures_check.bind fun _ _ => ?_
  refine ensures_check.bind fun _ _ => ?_
  unfold updateRefundValidatorsKeysCount
  simp only
  split
  · -- the count is the stored one, and nothing is written
    next heq => exact ensures_pure ⟨rfl, rfl, fun _ _ => rfl, rfl, rfl, rfl, heq.symm, rfl, rfl⟩
  · refine ensures_check.bind fun _ _ => ?_
    refine updateStuckPenaltyEnd_get.bind fun stats₁ hstats₁ => ?_
    refine (ensures_set (.inr trivial)).bind fun stats hstats => ?_
    refine onlyTargets_updateSummaryMaxValidatorsCount.mono fun s' hs => ?_
    obtain ⟨targets, htargets, hoperators⟩ := hs.operators
    have hop : s'.operators id = { s.operators id with
        stuckPenaltyStats := stats
        targetValidatorsStats := targets } := by
      rw [hoperators, Function.update_self]
      simp only [saveOperatorStuckPenaltyStats, Function.update_self]
    simp only [saveOperatorStuckPenaltyStats, Function.update_self] at htargets
    exact
      { keysOpIndex := hs.keysOpIndex
        signingKeys := hs.signingKeys
        operators_of_ne := fun i hi => by
          rw [hoperators, Function.update_of_ne hi]
          exact Function.update_of_ne hi _ _
        active := by rw [hop]
        signingKeysStats := by rw [hop]
        stuck := by
          rw [hop]
          exact (hstats.get_of_ne _ (by decide)).trans (hstats₁.1 _ (by decide))
        refunded := by
          rw [hop]
          exact hstats.get
        targetActive := by
          rw [hop]
          exact htargets _ (by decide)
        target := by
          rw [hop]
          exact htargets _ (by decide) }

/-- The maximum stays, unless ready keys are taken away. -/
theorem Refunded.limit_eq (h : Refunded s s' id n) {endTimestamp : Nat} (hend : endTimestamp ≠ 0)
    (hmoves : NodeOperator.PenaltyMoves endTimestamp (s.operators id) (s'.operators id))
    (hkept : (s.operators id).stuck ≤ n ∨ (s.operators id).limit = (s.operators id).deposited) :
    (s'.operators id).limit = (s.operators id).limit := by
  have hvetted : (s'.operators id).vetted = (s.operators id).vetted := by
    rw [NodeOperator.vetted, NodeOperator.vetted, h.signingKeysStats]
  have hexited : (s'.operators id).exited = (s.operators id).exited := by
    rw [NodeOperator.exited, NodeOperator.exited, h.signingKeysStats]
  have hdeposited : (s'.operators id).deposited = (s.operators id).deposited := by
    rw [NodeOperator.deposited, NodeOperator.deposited, h.signingKeysStats]
  by_cases hcleared : (s.operators id).stuck ≤ (s.operators id).refunded ∧
      (s.operators id).penaltyEnd = 0
  · have hpenaltyEnd : (s'.operators id).penaltyEnd = 0 :=
      (hmoves.of_unresolved fun hr => absurd hcleared.1 (Nat.not_le_of_lt hr.1)).trans hcleared.2
    by_cases hn : (s.operators id).stuck ≤ n
    · have hcleared' : (s'.operators id).stuck ≤ (s'.operators id).refunded ∧
          (s'.operators id).penaltyEnd = 0 := by
        rw [h.stuck, h.refunded]
        exact ⟨hn, hpenaltyEnd⟩
      unfold NodeOperator.limit
      rw [if_pos hcleared, if_pos hcleared', hvetted, hexited, hdeposited, h.targetActive, h.target]
    · rw [hkept.resolve_left hn, ← hdeposited]
      refine if_neg fun hcleared' => hn ?_
      rw [← h.stuck, ← h.refunded]
      exact hcleared'.1
  · -- the penalty is not over, neither before nor after
    have hbefore : (s.operators id).limit = (s.operators id).deposited := if_neg hcleared
    rw [hbefore, ← hdeposited]
    refine if_neg fun hcleared' => ?_
    by_cases hstuck : (s.operators id).Stuck
    · have hpenaltyEnd := hmoves.of_resolved hstuck (Nat.not_lt_of_le hcleared'.1)
      exact hend (hpenaltyEnd.symm.trans hcleared'.2)
    · have hpenaltyEnd := hmoves.of_unresolved fun hr => hstuck hr.1
      exact hcleared ⟨Nat.le_of_not_lt hstuck, hpenaltyEnd.symm.trans hcleared'.2⟩

/-- **When a refund changes the deposit data**: it makes an operator with ready keys stuck again. -/
theorem Refunded.changes_iff (h : Refunded s s' id n) (hs : Invariant s) (hs' : Invariant s')
    {endTimestamp : Nat} (hend : endTimestamp ≠ 0)
    (hmoves : NodeOperator.PenaltyMoves endTimestamp (s.operators id) (s'.operators id)) :
    DepositDataChanges getKeyOffset s s' ↔ n < (s.operators id).stuck ∧
      (s.operators id).deposited < (s.operators id).maxValidators := by
  have hdeposited : (s'.operators id).deposited = (s.operators id).deposited := by
    rw [NodeOperator.deposited, NodeOperator.deposited, h.signingKeysStats]
  constructor
  · rintro ⟨i, hready | ⟨-, hswitched⟩⟩
    · by_contra hnot
      refine hready ?_
      by_cases hi : i = id
      · subst hi
        refine readyKeys_congr h.signingKeys hdeposited ?_
        rw [hs.settled i, hs'.settled i]
        refine h.limit_eq hend hmoves ?_
        rw [← hs.settled i]
        have hle := hs.deposited_le_max i
        omega
      · refine readyKeys_congr h.signingKeys ?_ ?_
        · rw [h.operators_of_ne i hi]
        · rw [h.operators_of_ne i hi]
    · refine absurd ?_ hswitched
      by_cases hi : i = id
      · subst hi
        exact h.active
      · rw [h.operators_of_ne i hi]
  · rintro ⟨hlt, hready⟩
    refine ⟨id, .inl ?_⟩
    have hmax : (s'.operators id).maxValidators = (s'.operators id).deposited := by
      rw [hs'.settled id]
      refine if_neg fun hcleared => ?_
      have hle := hcleared.1
      rw [h.stuck, h.refunded] at hle
      omega
    rw [readyKeys_eq_nil hmax.le]
    exact (readyKeys_ne_nil hready).symm

end NodeOperatorsRegistry

open NodeOperatorsRegistry

/-- The call takes the refunded number of an operator with ready keys below the stuck one. -/
def RegistryAction.Unannounced (action : RegistryAction) (s : NodeOperatorsRegistry) : Prop :=
  match action with
  | .updateRefundedValidatorsCount id count =>
    count < (s.operators id).stuck ∧ (s.operators id).deposited < (s.operators id).maxValidators
  | _ => False

namespace NodeOperatorsRegistry

variable {s s' : NodeOperatorsRegistry} {env : RegistryEnv} {action : RegistryAction}
  {getKeyOffset : Nat → Nat → BitVec 256}

/-- Every call but `updateRefundedValidatorsCount` announces a change. -/
theorem announces_of_run (h : Invariant s) (hrun : action.run getKeyOffset env s = .ok s')
    (hother : ∀ id count, action ≠ .updateRefundedValidatorsCount id count) :
    Announces getKeyOffset s s' := by
  have hready : .ready ∉ action.parts := by
    cases action with
    | updateRefundedValidatorsCount id count => exact absurd rfl (hother id count)
    | _ => simp [RegistryAction.parts]
  exact (((ensures_run h).of_ok hrun).announced hready).imp id SameReady.not_changes

/--
**The nonce changes with the deposit data**, in every call but a refund that makes an operator with
ready keys stuck again. (The end of a penalty does not wrap around the 256 bits of a word.)
-/
theorem nonce_changes_iff (h : Reachable Initial (Step getKeyOffset) s)
    (hfits : env.timestamp + MAX_STUCK_PENALTY_DELAY < 2 ^ 256)
    (hrun : action.run getKeyOffset env s = .ok s') :
    (DepositDataChanges getKeyOffset s s' → s'.getNonce ≠ s.getNonce) ↔
      ¬ action.Unannounced s := by
  have hs := invariant_of_reachable h
  by_cases hrefund : ∃ id count, action = .updateRefundedValidatorsCount id count
  · obtain ⟨id, count, rfl⟩ := hrefund
    have hs' : Invariant s' := ((ensures_run hs).of_ok hrun).invariant
    have hrefunded := refunded_updateRefundedValidatorsCount.of_ok hrun
    have hmoves := penaltiesMove_updateRefundedValidatorsCount.of_ok hrun id
    have hend : uncheckedAdd env.timestamp s.stuckPenaltyDelay ≠ 0 := by
      have htime := env.timestamp_pos
      have hdelay := hs.stuckPenaltyDelay_le
      rw [uncheckedAdd_of_lt (by omega)]
      omega
    have hnonce : s'.getNonce = s.getNonce := hrefunded.keysOpIndex
    rw [hrefunded.changes_iff hs hs' hend hmoves, hnonce]
    exact ⟨fun himp hsilent => himp hsilent rfl, fun hnot hsilent => absurd hsilent hnot⟩
  · have hsilent : ¬ action.Unannounced s := by
      intro hsilent
      cases action with
      | updateRefundedValidatorsCount id count => exact hrefund ⟨id, count, rfl⟩
      | _ => exact hsilent
    refine ⟨fun _ => hsilent, fun _ hchanges => ?_⟩
    have hannounces : Announces getKeyOffset s s' :=
      announces_of_run hs hrun fun id count heq => hrefund ⟨id, count, heq⟩
    exact hannounces.getNonce_ne hchanges

/-- The second operator has a stuck validator, which was refunded before, and a ready key. -/
def exampleCoveredRegistry : NodeOperatorsRegistry :=
  result (exampleRegistry.runAll exampleKeyOffset
    [(exampleRegistryEnv, .obtainDepositData 2),
     (exampleRegistryEnv, .updateRefundedValidatorsCount 1 1),
     (exampleRegistryEnv, .unsafeUpdateValidatorsCount 1 0 1)]) (by decide +kernel)

/-- The refund is taken back. -/
def exampleUncoveredRegistry : NodeOperatorsRegistry :=
  result (RegistryAction.run (.updateRefundedValidatorsCount 1 0) exampleKeyOffset
    exampleRegistryEnv exampleCoveredRegistry) (by decide +kernel)

theorem reachable_exampleCoveredRegistry :
    Reachable Initial (Step exampleKeyOffset) exampleCoveredRegistry :=
  reachable_runAll (reachable_runAll (.init initial_exampleInitialRegistry) runAll_exampleRegistry)
    (eq_ok_result _ (by decide +kernel))

theorem run_exampleUncoveredRegistry :
    RegistryAction.run (.updateRefundedValidatorsCount 1 0) exampleKeyOffset exampleRegistryEnv
      exampleCoveredRegistry = .ok exampleUncoveredRegistry :=
  eq_ok_result _ (by decide +kernel)

theorem changes_exampleUncoveredRegistry :
    DepositDataChanges exampleKeyOffset exampleCoveredRegistry exampleUncoveredRegistry := by
  refine ⟨1, .inl ?_⟩
  rw [readyKeys_eq_nil (s := exampleUncoveredRegistry) (by decide +kernel)]
  exact (readyKeys_ne_nil (by decide +kernel)).symm

/-- The ready key of the second operator is taken away, and the nonce stays. -/
theorem not_nonce_changes : ¬ ∀ (getKeyOffset : Nat → Nat → BitVec 256)
    (s : NodeOperatorsRegistry), Reachable Initial (Step getKeyOffset) s →
    ∀ (env : RegistryEnv) (action : RegistryAction) (s' : NodeOperatorsRegistry),
      action.run getKeyOffset env s = .ok s' →
      DepositDataChanges getKeyOffset s s' → s'.getNonce ≠ s.getNonce := by
  intro h
  have hnonce : exampleUncoveredRegistry.getNonce = exampleCoveredRegistry.getNonce := by
    decide +kernel
  exact h exampleKeyOffset _ reachable_exampleCoveredRegistry exampleRegistryEnv _ _
    run_exampleUncoveredRegistry changes_exampleUncoveredRegistry hnonce

/-- Depositing the ready key changes the nonce. -/
theorem nonce_changes_iff_deposit :
    ∃ s', RegistryAction.run (.obtainDepositData 1) exampleKeyOffset exampleRegistryEnv
        exampleCoveredRegistry = .ok s' ∧
      (DepositDataChanges exampleKeyOffset exampleCoveredRegistry s' →
        s'.getNonce ≠ exampleCoveredRegistry.getNonce) := by
  have hrun := eq_ok_result (RegistryAction.run (.obtainDepositData 1) exampleKeyOffset
    exampleRegistryEnv exampleCoveredRegistry) (by decide +kernel)
  exact ⟨_, hrun, (nonce_changes_iff reachable_exampleCoveredRegistry (by decide) hrun).mpr
    not_false⟩

end NodeOperatorsRegistry

end Catalist
