import Catalist.Registry.Penalty

/-!
# Correcting the counts of an operator

`unsafeUpdateValidatorsCount` sets the exited and the stuck count of an operator, each in an update of
its own. The stuck count comes first, and is held against the exited count that is still the old one.
So a pair of counts that fits the deposited keys is refused when the new stuck count does not fit
beside the old exited count (`unsafeUpdateValidatorsCount_exact_iff`).
-/

namespace Catalist

open Solidity Transition

namespace NodeOperatorsRegistry

variable {s s' s'' : NodeOperatorsRegistry} {env : RegistryEnv}
  {getKeyOffset : Nat → Nat → BitVec 256} {id exited stuck penaltyEnd : Nat}

/-! ## What else changes -/

/-- Only these counters of one operator may change, and the maximum that follows them. -/
structure OnlyCounts (s s' : NodeOperatorsRegistry) (id exited stuck penaltyEnd : Nat) : Prop where
  exited : (s'.operators id).exited = exited
  stuck : (s'.operators id).stuck = stuck
  penaltyEnd : (s'.operators id).penaltyEnd = penaltyEnd
  vetted : (s'.operators id).vetted = (s.operators id).vetted
  total : (s'.operators id).total = (s.operators id).total
  deposited : (s'.operators id).deposited = (s.operators id).deposited
  refunded : (s'.operators id).refunded = (s.operators id).refunded
  targetActive : (s'.operators id).targetActive = (s.operators id).targetActive
  target : (s'.operators id).target = (s.operators id).target
  active : (s'.operators id).active = (s.operators id).active
  operators_of_ne : ∀ i, i ≠ id → s'.operators i = s.operators i
  totalOperatorsCount : s'.totalOperatorsCount = s.totalOperatorsCount
  signingKeys : s'.signingKeys = s.signingKeys

/-- Nothing is set. -/
theorem OnlyCounts.refl (s : NodeOperatorsRegistry) (id : Nat) :
    OnlyCounts s s id (s.operators id).exited (s.operators id).stuck (s.operators id).penaltyEnd :=
  ⟨rfl, rfl, rfl, rfl, rfl, rfl, rfl, rfl, rfl, rfl, fun _ _ => rfl, rfl, rfl⟩

theorem OnlyCounts.trans {exited' stuck' penaltyEnd' : Nat}
    (h : OnlyCounts s s' id exited stuck penaltyEnd)
    (h' : OnlyCounts s' s'' id exited' stuck' penaltyEnd') :
    OnlyCounts s s'' id exited' stuck' penaltyEnd' where
  exited := h'.exited
  stuck := h'.stuck
  penaltyEnd := h'.penaltyEnd
  vetted := h'.vetted.trans h.vetted
  total := h'.total.trans h.total
  deposited := h'.deposited.trans h.deposited
  refunded := h'.refunded.trans h.refunded
  targetActive := h'.targetActive.trans h.targetActive
  target := h'.target.trans h.target
  active := h'.active.trans h.active
  operators_of_ne i hne := (h'.operators_of_ne i hne).trans (h.operators_of_ne i hne)
  totalOperatorsCount := h'.totalOperatorsCount.trans h.totalOperatorsCount
  signingKeys := h'.signingKeys.trans h.signingKeys

/-- The stuck penalty stats of the operator are written. -/
theorem onlyCounts_saveStuck {stats : Packed}
    (hstuck : stats.get STUCK_VALIDATORS_COUNT_OFFSET = stuck)
    (hend : stats.get STUCK_PENALTY_END_TIMESTAMP_OFFSET = penaltyEnd)
    (hrefunded : stats.get REFUNDED_VALIDATORS_COUNT_OFFSET = (s.operators id).refunded) :
    OnlyCounts s (s.saveOperatorStuckPenaltyStats id stats) id (s.operators id).exited stuck
      penaltyEnd := by
  have hself : (s.saveOperatorStuckPenaltyStats id stats).operators id
      = { s.operators id with stuckPenaltyStats := stats } := Function.update_self ..
  refine ⟨?_, ?_, ?_, ?_, ?_, ?_, ?_, ?_, ?_, ?_, fun i hne => Function.update_of_ne hne .., rfl, rfl⟩
    <;> rw [hself]
  · rfl
  · exact hstuck
  · exact hend
  · rfl
  · rfl
  · rfl
  · exact hrefunded
  · rfl
  · rfl

/-- The signing keys stats of the operator are written, with another exited count. -/
theorem onlyCounts_saveExited {stats summary : Packed}
    (hstats : Packed.Updated (s.operators id).signingKeysStats stats TOTAL_EXITED_KEYS_COUNT_OFFSET
      exited) :
    OnlyCounts s ((s.saveOperatorSigningKeysStats id stats).saveSummarySigningKeysStats summary) id
      exited (s.operators id).stuck (s.operators id).penaltyEnd := by
  have hself : ((s.saveOperatorSigningKeysStats id stats).saveSummarySigningKeysStats
      summary).operators id = { s.operators id with signingKeysStats := stats } :=
    Function.update_self ..
  refine ⟨?_, ?_, ?_, ?_, ?_, ?_, ?_, ?_, ?_, ?_, fun i hne => Function.update_of_ne hne .., rfl, rfl⟩
    <;> rw [hself]
  · exact hstats.get
  · rfl
  · rfl
  · exact hstats.get_of_ne _ (by decide)
  · exact hstats.get_of_ne _ (by decide)
  · exact hstats.get_of_ne _ (by decide)
  · rfl
  · rfl
  · rfl

/-- Applying the limits sets nothing but the maximum. -/
theorem LimitsApplied.onlyCounts (h : LimitsApplied s s' id) :
    OnlyCounts s s' id (s.operators id).exited (s.operators id).stuck
      (s.operators id).penaltyEnd := by
  obtain ⟨stats, summary, rfl, hstats⟩ := h.eq
  have hself : ((s.saveOperatorTargetValidatorsStats id stats).saveSummarySigningKeysStats
      summary).operators id = { s.operators id with targetValidatorsStats := stats } :=
    Function.update_self ..
  refine ⟨?_, ?_, ?_, ?_, ?_, ?_, ?_, ?_, ?_, ?_, fun i hne => Function.update_of_ne hne .., rfl, rfl⟩
    <;> rw [hself]
  · rfl
  · rfl
  · rfl
  · rfl
  · rfl
  · rfl
  · rfl
  · exact hstats.get_of_ne IS_TARGET_LIMIT_ACTIVE_OFFSET (by decide)
  · exact hstats.get_of_ne TARGET_VALIDATORS_COUNT_OFFSET (by decide)

/-! ## The stuck count -/

/-- The last stuck validator is resolved, so that the penalty gets an end. -/
def ResolvesStuck (op : NodeOperator) (stuck : Nat) : Prop :=
  stuck ≤ op.refunded ∧ op.refunded < op.stuck

instance (op : NodeOperator) (stuck : Nat) : Decidable (ResolvesStuck op stuck) :=
  inferInstanceAs (Decidable (_ ∧ _))

/-- The end of the penalty, when a stuck count is set. -/
def penaltyEndAfter (s : NodeOperatorsRegistry) (env : RegistryEnv) (id stuck : Nat) : Nat :=
  if ResolvesStuck (s.operators id) stuck then uncheckedAdd env.timestamp s.stuckPenaltyDelay
  else (s.operators id).penaltyEnd

/--
The stuck counts that are accepted: the old one, and those that fit beside the exited count, if the
end of the penalty has 64 bits where it is set.
-/
def StuckAccepted (s : NodeOperatorsRegistry) (env : RegistryEnv) (id stuck : Nat) : Prop :=
  stuck = (s.operators id).stuck ∨
    (stuck + (s.operators id).exited ≤ (s.operators id).deposited ∧
      (ResolvesStuck (s.operators id) stuck →
        uncheckedAdd env.timestamp s.stuckPenaltyDelay ≤ UINT64_MAX))

theorem ensures_updateStuck {allowed : Revert RegistryError → Prop} (h : Invariant s)
    (hid : id < s.totalOperatorsCount) (haccepted : StuckAccepted s env id stuck) :
    Ensures allowed (s.updateStuckValidatorsCountInternal env id stuck) fun s' =>
      Invariant s' ∧
        OnlyCounts s s' id (s.operators id).exited stuck (penaltyEndAfter s env id stuck) := by
  have hwf := h.wellFormed id
  unfold updateStuckValidatorsCountInternal
  simp only
  split
  · next hsame =>
    have hend : penaltyEndAfter s env id stuck = (s.operators id).penaltyEnd := by
      refine if_neg fun hresolves => ?_
      have hle := hresolves.1
      have hlt := hresolves.2
      change stuck = (s.operators id).stuck at hsame
      omega
    rw [hend, show stuck = (s.operators id).stuck from hsame]
    exact ensures_pure ⟨h, .refl s id⟩
  · next hnew =>
    obtain ⟨hle, hfits⟩ := haccepted.resolve_left hnew
    have hdeposited : (s.operators id).deposited ≤ UINT64_MAX := Packed.get_le
    have hroom : stuck ≤ (s.operators id).deposited - (s.operators id).exited := by omega
    refine (ensures_ensure hwf.exited_le_deposited).bind fun _ _ => ?_
    refine (ensures_require_of hroom).bind fun _ _ => ?_
    refine ((ensures_updateStuckPenaltyEnd fun hresolves => .inl (hfits hresolves)).and
      updateStuckPenaltyEnd_get).bind fun stats₁ hset => ?_
    obtain ⟨hstats₁, -, hend₁⟩ := hset
    refine (ensures_set (.inl (by omega))).bind fun stats hstats => ?_
    have hrefunded : stats.get REFUNDED_VALIDATORS_COUNT_OFFSET = (s.operators id).refunded :=
      (hstats.get_of_ne _ (by decide)).trans (hstats₁ _ (by decide))
    have hend : stats.get STUCK_PENALTY_END_TIMESTAMP_OFFSET = penaltyEndAfter s env id stuck :=
      (hstats.get_of_ne _ (by decide)).trans hend₁
    have hsaved := onlyCounts_saveStuck hstats.get hend hrefunded
    refine (h.ensures_limits hid (edited_of_stuck hwf hle hstats.get hrefunded)).mono
      fun s' hs' => ⟨hs'.1, ?_⟩
    have hlimits := hs'.2.onlyCounts
    rw [hsaved.exited, hsaved.stuck, hsaved.penaltyEnd] at hlimits
    exact hsaved.trans hlimits

theorem stuckAccepted_of_ok
    (hok : s.updateStuckValidatorsCountInternal env id stuck = .ok s') :
    StuckAccepted s env id stuck := by
  unfold updateStuckValidatorsCountInternal at hok
  simp only at hok
  split at hok
  · next hsame => exact .inl hsame
  · simp only [bind_eq_ok, ensure_eq_ok, require_eq_ok] at hok
    obtain ⟨_, hexited, _, hle, stats, hend, -⟩ := hok
    change (s.operators id).exited ≤ (s.operators id).deposited at hexited
    change stuck ≤ (s.operators id).deposited - (s.operators id).exited at hle
    refine .inr ⟨by omega, fun hresolves => ?_⟩
    unfold updateStuckPenaltyEnd at hend
    split at hend
    · exact Packed.set_eq_ok_iff.mp ⟨stats, within_eq_ok.mp hend⟩
    · next hnot => exact absurd hresolves hnot

/-! ## The exited count -/

theorem ensures_updateExited {allowed : Revert RegistryError → Prop} (h : Invariant s)
    (hid : id < s.totalOperatorsCount)
    (hle : exited + (s.operators id).stuck ≤ (s.operators id).deposited) :
    Ensures allowed (s.updateExitedValidatorsCountInternal env id exited true) fun s' =>
      Invariant s' ∧
        OnlyCounts s s' id exited (s.operators id).stuck (s.operators id).penaltyEnd := by
  have hwf := h.wellFormed id
  unfold updateExitedValidatorsCountInternal
  simp only
  split
  · next hsame =>
    rw [show exited = (s.operators id).exited from hsame]
    exact ensures_pure ⟨h, .refl s id⟩
  · have hdeposited : (s.operators id).deposited ≤ UINT64_MAX := Packed.get_le
    have hroom : exited ≤ (s.operators id).deposited - (s.operators id).stuck := by omega
    refine (ensures_require_of (.inl trivial)).bind fun _ _ => ?_
    refine (ensures_ensure hwf.stuck_le_deposited).bind fun _ _ => ?_
    refine (ensures_require_of hroom).bind fun _ _ => ?_
    refine (ensures_set (.inl (by omega))).bind fun stats hstats => ?_
    refine (ensures_updateSummary_exited h hid (by omega)).bind fun summary hsummary => ?_
    have hsaved := @onlyCounts_saveExited s id exited stats summary hstats
    refine (h.ensures_limits hid (edited_of_exited h hid hle hstats hsummary)).mono
      fun s' hs' => ⟨hs'.1, ?_⟩
    have hlimits := hs'.2.onlyCounts
    rw [hsaved.exited, hsaved.stuck, hsaved.penaltyEnd] at hlimits
    exact hsaved.trans hlimits

theorem exited_le_of_ok (h : Invariant s)
    (hok : s.updateExitedValidatorsCountInternal env id exited true = .ok s') :
    exited + (s.operators id).stuck ≤ (s.operators id).deposited := by
  have hwf := h.wellFormed id
  unfold updateExitedValidatorsCountInternal at hok
  simp only at hok
  split at hok
  · next hsame =>
    rw [show exited = (s.operators id).exited from hsame]
    exact hwf.exited_add_stuck_le
  · simp only [bind_eq_ok, ensure_eq_ok, require_eq_ok] at hok
    obtain ⟨_, -, _, hstuck, _, hle, -⟩ := hok
    change (s.operators id).stuck ≤ (s.operators id).deposited at hstuck
    change exited ≤ (s.operators id).deposited - (s.operators id).stuck at hle
    omega

/-! ## Both counts -/

/-- The counts fit the deposited keys, and the stuck count is accepted beside the old exited count. -/
theorem ensures_unsafeUpdateValidatorsCount {allowed : Revert RegistryError → Prop}
    (h : Invariant s) (hid : id < s.totalOperatorsCount)
    (hauth : env.canPerform env.sender .stakingRouter = true)
    (hle : exited + stuck ≤ (s.operators id).deposited) (haccepted : StuckAccepted s env id stuck) :
    Ensures allowed (s.unsafeUpdateValidatorsCount env id exited stuck) fun s' =>
      Invariant s' ∧ OnlyCounts s s' id exited stuck (penaltyEndAfter s env id stuck) := by
  refine (ensures_require_of hid).bind fun _ _ => ?_
  refine (ensures_require_of hauth).bind fun _ _ => ?_
  refine (ensures_updateStuck h hid haccepted).bind fun s₁ hs₁ => ?_
  have hid₁ : id < s₁.totalOperatorsCount := hs₁.2.totalOperatorsCount.symm ▸ hid
  have hle₁ : exited + (s₁.operators id).stuck ≤ (s₁.operators id).deposited := by
    rwa [hs₁.2.stuck, hs₁.2.deposited]
  refine (ensures_updateExited hs₁.1 hid₁ hle₁).bind fun s₂ hs₂ => ?_
  have hexited := hs₂.2
  rw [hs₁.2.stuck, hs₁.2.penaltyEnd] at hexited
  exact ensures_pure ⟨hs₂.1.increaseValidatorsKeysNonce, { hs₁.2.trans hexited with }⟩

theorem accepted_of_ok (h : Invariant s) (hid : id < s.totalOperatorsCount)
    (hok : s.unsafeUpdateValidatorsCount env id exited stuck = .ok s') :
    exited + stuck ≤ (s.operators id).deposited ∧ StuckAccepted s env id stuck := by
  simp only [unsafeUpdateValidatorsCount, bind_eq_ok] at hok
  obtain ⟨_, -, _, -, s₁, hstuck, s₂, hexited, -⟩ := hok
  have haccepted := stuckAccepted_of_ok hstuck
  obtain ⟨hs₁, hcounts⟩ :=
    (@ensures_updateStuck s env id stuck (fun _ => True) h hid haccepted).of_ok hstuck
  have hle := exited_le_of_ok hs₁ hexited
  rw [hcounts.stuck, hcounts.deposited] at hle
  exact ⟨hle, haccepted⟩

/--
**When the unsafe update depends on the requested counts only.** It succeeds on all counts that fit
the deposited keys, sets them and nothing else, exactly when the stuck count of a pair that fits is
accepted beside the old exited count.
-/
theorem unsafeUpdateValidatorsCount_exact_iff
    (hreach : Reachable Initial (Step getKeyOffset) s) (hid : id < s.totalOperatorsCount)
    (hauth : env.canPerform env.sender .stakingRouter = true) :
    (((∃ s', s.unsafeUpdateValidatorsCount env id exited stuck = .ok s') ↔
        exited + stuck ≤ (s.operators id).deposited) ∧
      ∀ s', s.unsafeUpdateValidatorsCount env id exited stuck = .ok s' →
        Invariant s' ∧ OnlyCounts s s' id exited stuck (penaltyEndAfter s env id stuck)) ↔
    (exited + stuck ≤ (s.operators id).deposited → StuckAccepted s env id stuck) := by
  have h := invariant_of_reachable hreach
  have hensures {allowed : Revert RegistryError → Prop}
      (hle : exited + stuck ≤ (s.operators id).deposited) (haccepted : StuckAccepted s env id stuck) :=
    @ensures_unsafeUpdateValidatorsCount s env id exited stuck allowed h hid hauth hle haccepted
  constructor
  · rintro ⟨hiff, -⟩ hle
    obtain ⟨s', hok⟩ := hiff.mpr hle
    exact (accepted_of_ok h hid hok).2
  · intro haccepted
    refine ⟨⟨fun ⟨s', hok⟩ => (accepted_of_ok h hid hok).1, fun hle => ?_⟩, fun s' hok => ?_⟩
    · obtain ⟨s', hok, -⟩ := (hensures hle (haccepted hle)).exists_ok
      exact ⟨s', hok⟩
    · obtain ⟨hle, hstuck⟩ := accepted_of_ok h hid hok
      exact (@hensures (fun _ => True) hle hstuck).of_ok hok

/-- The validator of the second operator is reported as exited. -/
def exampleExitedRegistry : NodeOperatorsRegistry :=
  result (exampleRegistry.runAll exampleKeyOffset
    [(exampleRegistryEnv, .obtainDepositData 2),
      (exampleRegistryEnv, .unsafeUpdateValidatorsCount 1 1 0)]) (by decide +kernel)

theorem reachable_exampleExitedRegistry :
    Reachable Initial (Step exampleKeyOffset) exampleExitedRegistry := by
  have hkeys := reachable_runAll (.init initial_exampleInitialRegistry) runAll_exampleRegistry
  exact reachable_runAll hkeys (eq_ok_result _ (by decide +kernel))

/-- The report was wrong, but it cannot be corrected to a stuck validator in one call. -/
theorem unsafeUpdateValidatorsCount_refused :
    Reachable Initial (Step exampleKeyOffset) exampleExitedRegistry ∧
      1 < exampleExitedRegistry.totalOperatorsCount ∧
      exampleRegistryEnv.canPerform exampleRegistryEnv.sender .stakingRouter = true ∧
      ¬ ((∃ s', exampleExitedRegistry.unsafeUpdateValidatorsCount exampleRegistryEnv 1 0 1 = .ok s') ↔
        0 + 1 ≤ (exampleExitedRegistry.operators 1).deposited) := by
  refine ⟨reachable_exampleExitedRegistry, by decide +kernel, rfl, fun hiff => ?_⟩
  obtain ⟨s', hok⟩ := hiff.mpr (by decide +kernel)
  have hrefused : (exampleExitedRegistry.unsafeUpdateValidatorsCount exampleRegistryEnv 1 0 1).isOk
      = false := by decide +kernel
  rw [hok] at hrefused
  cases hrefused

/-- It can be corrected to no exited validator. -/
theorem unsafeUpdateValidatorsCount_exact_iff_lowered :
    ∃ s', exampleExitedRegistry.unsafeUpdateValidatorsCount exampleRegistryEnv 1 0 0 = .ok s' ∧
      (s'.operators 1).exited = 0 := by
  obtain ⟨hiff, hcounts⟩ := (@unsafeUpdateValidatorsCount_exact_iff exampleExitedRegistry
    exampleRegistryEnv exampleKeyOffset 1 0 0 reachable_exampleExitedRegistry (by decide +kernel)
    rfl).mpr fun _ => .inl (by decide +kernel)
  obtain ⟨s', hok⟩ := hiff.mpr (Nat.zero_le _)
  exact ⟨s', hok, (hcounts s' hok).2.exited⟩

end NodeOperatorsRegistry

end Catalist
