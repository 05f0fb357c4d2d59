import Catalist.Registry.Footprint

/-!
# What the functions for operators keep

Each function keeps the invariant, and whatever is not its business. It can fail in ways that a caller
can bring about, but not in those that the code treats as impossible: an assertion, an array access, a
packed counter or a subtraction that goes wrong. Only the end of a penalty may not fit, if the time is
too late.
-/

namespace Catalist

open Solidity ByteBuffer

/-- A failure that no argument should bring about. -/
def Internal : Revert RegistryError → Prop
  | .panic _ => True
  | .error (.packed _) => True
  | .error .mathSubUnderflow => True
  | .error _ => False

/-- The failures that are not internal; all of them if `fits` does not hold. -/
def Harmless (fits : Prop) (r : Revert RegistryError) : Prop := fits → ¬ Internal r

namespace NodeOperatorsRegistry

variable {s s' : NodeOperatorsRegistry} {env : RegistryEnv} {id n : Nat} {op : NodeOperator}
  {fits : Prop} {parts parts' : List RegistryPart}

/-- The invariant holds, and no more keys are deposited; only the parts have changed. -/
structure Kept (parts : List RegistryPart) (s s' : NodeOperatorsRegistry) : Prop
    extends SameDeposits s s', Footprint parts s s' where
  invariant : Invariant s'

/-- A call that neither adds an operator nor hands out keys. -/
abbrev Keeps (s : NodeOperatorsRegistry) (fits : Prop) (parts : List RegistryPart)
    (x : Call RegistryError NodeOperatorsRegistry) : Prop :=
  Ensures (Harmless fits) x (Kept parts s)

theorem keeps_pure (h : Invariant s) : Keeps s fits parts (pure s) :=
  ensures_pure { SameDeposits.refl s, Footprint.refl parts s with invariant := h }

/-- The end of most functions: the limits are applied to the operator that was changed. -/
theorem keeps_limits {s₁ : NodeOperatorsRegistry} (h : Invariant s)
    (hid : id < s.totalOperatorsCount) (he : Edited s s₁ id op 0 0 0 0)
    (hop : op.deposited = (s.operators id).deposited) (hf : Footprint (.ready :: parts) s s₁) :
    Keeps s fits (.ready :: parts) (s₁.updateSummaryMaxValidatorsCount env id) :=
  (h.ensures_limits hid he).mono fun _ hs =>
    { (he.sameDeposits hop).trans hs.2.sameDeposits,
      hf.trans (hs.2.footprint List.mem_cons_self) List.mem_cons_self with invariant := hs.1 }

/-- A call after a change that nothing depends on. -/
theorem Keeps.after {s₁ : NodeOperatorsRegistry} {x : Call RegistryError NodeOperatorsRegistry}
    (h : Keeps s₁ fits (.ready :: parts) x) (hf : Footprint (.ready :: parts) s s₁)
    (hs : SameDeposits s s₁) : Keeps s fits (.ready :: parts) x :=
  h.mono fun _ hs' =>
    { hs.trans hs'.toSameDeposits, hf.trans hs'.toFootprint List.mem_cons_self with
      invariant := hs'.invariant }

theorem Keeps.widen {x : Call RegistryError NodeOperatorsRegistry} (h : Keeps s fits parts x)
    (hsub : parts ⊆ parts') : Keeps s fits parts' x :=
  h.mono fun _ hs =>
    { hs.toSameDeposits, hs.toFootprint.mono hsub with invariant := hs.invariant }

theorem Keeps.increaseValidatorsKeysNonce {x : Call RegistryError NodeOperatorsRegistry}
    (h : Keeps s fits (.ready :: parts) x) (hnonce : .nonce ∉ parts) :
    Keeps s fits (.nonce :: parts) (x >>= fun s => pure s.increaseValidatorsKeysNonce) :=
  h.bind fun _ hs => ensures_pure
    { hs.toSameDeposits, hs.toFootprint.increaseValidatorsKeysNonce hnonce with
      invariant := hs.invariant.increaseValidatorsKeysNonce }

/-- An operator with other signing keys stats. -/
theorem wellFormed_of_signingKeysStats {stats : Packed} {vetted exited total deposited : Nat}
    (hvetted : stats.get TOTAL_VETTED_KEYS_COUNT_OFFSET = vetted)
    (hexited : stats.get TOTAL_EXITED_KEYS_COUNT_OFFSET = exited)
    (htotal : stats.get TOTAL_KEYS_COUNT_OFFSET = total)
    (hdeposited : stats.get TOTAL_DEPOSITED_KEYS_COUNT_OFFSET = deposited)
    (hsum : exited + op.stuck ≤ deposited) (hrefunded : op.refunded ≤ deposited)
    (hle : deposited ≤ vetted) (hle' : vetted ≤ total)
    (hactive : op.active = false → vetted = deposited) :
    NodeOperator.WellFormed { op with signingKeysStats := stats } := by
  subst hvetted hexited htotal hdeposited
  exact ⟨hsum, hrefunded, hle, hle', hactive⟩

/-- The summary follows the signing keys stats of an operator. -/
theorem edited_of_signingKeysStats {stats summary : Packed}
    {loaded trimmed loaded' trimmed' : Nat}
    (hwf : NodeOperator.WellFormed { s.operators id with signingKeysStats := stats })
    (hmax : summary.get SUMMARY_MAX_VALIDATORS_COUNT_OFFSET
      = s.summarySigningKeysStats.get SUMMARY_MAX_VALIDATORS_COUNT_OFFSET)
    (hexited : summary.get SUMMARY_EXITED_KEYS_COUNT_OFFSET + (s.operators id).exited
      = s.summarySigningKeysStats.get SUMMARY_EXITED_KEYS_COUNT_OFFSET
        + stats.get TOTAL_EXITED_KEYS_COUNT_OFFSET)
    (htotal : summary.get SUMMARY_TOTAL_KEYS_COUNT_OFFSET + (s.operators id).total + trimmed
      = s.summarySigningKeysStats.get SUMMARY_TOTAL_KEYS_COUNT_OFFSET
        + stats.get TOTAL_KEYS_COUNT_OFFSET + trimmed')
    (hdeposited : summary.get SUMMARY_DEPOSITED_KEYS_COUNT_OFFSET + loaded'
        + (s.operators id).deposited
      = s.summarySigningKeysStats.get SUMMARY_DEPOSITED_KEYS_COUNT_OFFSET + loaded
        + stats.get TOTAL_DEPOSITED_KEYS_COUNT_OFFSET) :
    Edited s ((s.saveOperatorSigningKeysStats id stats).saveSummarySigningKeysStats summary) id
      { s.operators id with signingKeysStats := stats } loaded trimmed loaded' trimmed' where
  operators := rfl
  totalOperatorsCount := rfl
  stuckPenaltyDelay := rfl
  wellFormed := hwf
  max := congrArg (· + _) hmax
  exited := hexited
  total := htotal
  deposited := hdeposited
  active := rfl

/-! ## Reports -/

/-- The exited keys of all operators are among their keys, whose sum has 64 bits. -/
theorem ensures_updateSummary_exited {allowed : Revert RegistryError → Prop} (h : Invariant s)
    (hid : id < s.totalOperatorsCount) (hn : n ≤ (s.operators id).deposited) :
    Ensures allowed (s.updateSummary SUMMARY_EXITED_KEYS_COUNT_OFFSET (s.operators id).exited n)
      fun summary => Packed.Updated s.summarySigningKeysStats summary
        SUMMARY_EXITED_KEYS_COUNT_OFFSET
        (s.summarySigningKeysStats.get SUMMARY_EXITED_KEYS_COUNT_OFFSET
          - (s.operators id).exited + n) := by
  have hold : (s.operators id).exited
      ≤ s.summarySigningKeysStats.get SUMMARY_EXITED_KEYS_COUNT_OFFSET := by
    rw [h.exited]
    exact le_sumOver hid
  have hroom : s.summarySigningKeysStats.get SUMMARY_EXITED_KEYS_COUNT_OFFSET + n
      ≤ UINT64_MAX + (s.operators id).exited := by
    rw [h.exited]
    exact h.sumOver_add_le hid
      (fun i _ => (h.wellFormed i).exited_le_deposited.trans (h.wellFormed i).deposited_le_total)
      (hn.trans (h.wellFormed id).deposited_le_total)
  exact ensures_updateSummary hold hroom

/-- The operator with another exited count. -/
theorem edited_of_exited {stats summary : Packed} (h : Invariant s) (hid : id < s.totalOperatorsCount)
    (hn : n + (s.operators id).stuck ≤ (s.operators id).deposited)
    (hstats : Packed.Updated (s.operators id).signingKeysStats stats TOTAL_EXITED_KEYS_COUNT_OFFSET n)
    (hsummary : Packed.Updated s.summarySigningKeysStats summary SUMMARY_EXITED_KEYS_COUNT_OFFSET
      (s.summarySigningKeysStats.get SUMMARY_EXITED_KEYS_COUNT_OFFSET
        - (s.operators id).exited + n)) :
    Edited s ((s.saveOperatorSigningKeysStats id stats).saveSummarySigningKeysStats summary) id
      { s.operators id with signingKeysStats := stats } 0 0 0 0 := by
  have hwf := h.wellFormed id
  have hold : (s.operators id).exited
      ≤ s.summarySigningKeysStats.get SUMMARY_EXITED_KEYS_COUNT_OFFSET := by
    rw [h.exited]
    exact le_sumOver hid
  have hexited : stats.get TOTAL_EXITED_KEYS_COUNT_OFFSET = n := hstats.get
  have hvetted : stats.get TOTAL_VETTED_KEYS_COUNT_OFFSET = (s.operators id).vetted :=
    hstats.get_of_ne _ (by decide)
  have htotal : stats.get TOTAL_KEYS_COUNT_OFFSET = (s.operators id).total :=
    hstats.get_of_ne _ (by decide)
  have hsame : stats.get TOTAL_DEPOSITED_KEYS_COUNT_OFFSET = (s.operators id).deposited :=
    hstats.get_of_ne _ (by decide)
  refine edited_of_signingKeysStats ?_ ?_ ?_ ?_ ?_
  · exact wellFormed_of_signingKeysStats hvetted hexited htotal hsame hn hwf.refunded_le
      hwf.deposited_le_vetted hwf.vetted_le_total hwf.vetted_of_inactive
  · exact hsummary.get_of_ne _ (by decide)
  · rw [hsummary.get, hexited]
    omega
  · rw [hsummary.get_of_ne _ (by decide), htotal]
  · rw [hsummary.get_of_ne _ (by decide), hsame]

/-- `_updateExitedValidatorsCount` -/
theorem keeps_updateExitedValidatorsCountInternal {allowDecrease : Bool} (h : Invariant s)
    (hid : id < s.totalOperatorsCount) :
    Keeps s fits [.ready] (s.updateExitedValidatorsCountInternal env id n allowDecrease) := by
  have hwf := h.wellFormed id
  unfold updateExitedValidatorsCountInternal
  simp only
  split
  · exact keeps_pure h
  · refine (ensures_require fun _ => not_false).bind fun _ _ => ?_
    refine (ensures_ensure hwf.stuck_le_deposited).bind fun _ _ => ?_
    refine (ensures_require fun _ => not_false).bind fun _ hle => ?_
    have hn : n ≤ (s.operators id).deposited - (s.operators id).stuck := hle
    have hstuck := hwf.stuck_le_deposited
    have hdeposited : (s.operators id).deposited ≤ UINT64_MAX := Packed.get_le
    refine (ensures_set (.inl (by omega))).bind fun stats hstats => ?_
    refine (ensures_updateSummary_exited h hid (by omega)).bind fun summary hsummary => ?_
    have hf : Footprint [.ready] s
        ((s.saveOperatorSigningKeysStats id stats).saveSummarySigningKeysStats summary) :=
      footprint_of_update rfl rfl (fun _ => ⟨rfl, hstats.get_of_ne _ (by decide)⟩)
        (fun _ => (hstats.get_of_ne _ (by decide)).le) (fun _ => rfl) List.mem_cons_self
    exact keeps_limits h hid (edited_of_exited h hid (by omega) hstats hsummary)
      (hstats.get_of_ne _ (by decide)) hf

/-- Changing the stuck penalty stats or the target stats leaves the summary alone. -/
theorem edited_of_eq {s₁ : NodeOperatorsRegistry} (hwf : op.WellFormed)
    (hs : s₁ = { s with operators := Function.update s.operators id op })
    (hactive : op.active = (s.operators id).active)
    (hsigning : op.signingKeysStats = (s.operators id).signingKeysStats)
    (hmax : op.maxValidators = (s.operators id).maxValidators) :
    Edited s s₁ id op 0 0 0 0 where
  operators := by rw [hs]
  totalOperatorsCount := by rw [hs]
  stuckPenaltyDelay := by rw [hs]
  wellFormed := hwf
  max := by rw [hs, hmax]
  exited := by rw [hs, NodeOperator.exited, NodeOperator.exited, hsigning]
  total := by rw [hs, NodeOperator.total, NodeOperator.total, hsigning]
  deposited := by rw [hs, NodeOperator.deposited, NodeOperator.deposited, hsigning]
  active := by rw [hs, NodeOperator.activity, NodeOperator.activity, hactive]

/-- The end of the penalty is the only stat that may change. -/
theorem ensures_updateStuckPenaltyEnd {stats : Packed} {resolved : Prop} [Decidable resolved]
    {allowed : Revert RegistryError → Prop}
    (hfits : resolved → uncheckedAdd env.timestamp s.stuckPenaltyDelay ≤ UINT64_MAX ∨
      allowed (.error (.packed .packedOverflow))) :
    Ensures allowed (s.updateStuckPenaltyEnd env stats resolved) fun stats' =>
      ∀ m, m ≠ STUCK_PENALTY_END_TIMESTAMP_OFFSET → stats'.get m = stats.get m := by
  unfold updateStuckPenaltyEnd
  split
  · next hresolved => exact (ensures_set (hfits hresolved)).mono fun _ hstats => hstats.get_of_ne
  · exact ensures_pure fun _ _ => rfl

theorem penaltyEnd_fits_or (hfits : fits → env.timestamp + s.stuckPenaltyDelay ≤ UINT64_MAX) :
    uncheckedAdd env.timestamp s.stuckPenaltyDelay ≤ UINT64_MAX ∨
      Harmless fits (.error (.packed .packedOverflow)) := by
  by_cases h : fits
  · exact .inl ((Nat.mod_le _ _).trans (hfits h))
  · exact .inr fun hf => absurd hf h

/-- The operator with other stuck penalty stats. -/
theorem edited_of_stuckPenaltyStats {stats : Packed} (hwf : (s.operators id).WellFormed)
    (hstuck : (s.operators id).exited + stats.get STUCK_VALIDATORS_COUNT_OFFSET
      ≤ (s.operators id).deposited)
    (hrefunded : stats.get REFUNDED_VALIDATORS_COUNT_OFFSET ≤ (s.operators id).deposited) :
    Edited s (s.saveOperatorStuckPenaltyStats id stats) id
      { s.operators id with stuckPenaltyStats := stats } 0 0 0 0 := by
  have hnew : NodeOperator.WellFormed { s.operators id with stuckPenaltyStats := stats } :=
    { hwf with exited_add_stuck_le := hstuck, refunded_le := hrefunded }
  exact edited_of_eq hnew rfl rfl rfl rfl

/-- The operator with another stuck count. -/
theorem edited_of_stuck {stats : Packed} (hwf : (s.operators id).WellFormed)
    (hn : n + (s.operators id).exited ≤ (s.operators id).deposited)
    (hstuck : stats.get STUCK_VALIDATORS_COUNT_OFFSET = n)
    (hrefunded : stats.get REFUNDED_VALIDATORS_COUNT_OFFSET = (s.operators id).refunded) :
    Edited s (s.saveOperatorStuckPenaltyStats id stats) id
      { s.operators id with stuckPenaltyStats := stats } 0 0 0 0 :=
  edited_of_stuckPenaltyStats hwf (by omega) (hrefunded.trans_le hwf.refunded_le)

theorem footprint_of_stuckPenaltyStats {stats : Packed} :
    Footprint [.ready, .penalties] s (s.saveOperatorStuckPenaltyStats id stats) :=
  footprint_of_update rfl rfl (fun _ => ⟨rfl, rfl⟩) (fun _ => Nat.le_refl _)
    (fun hnot => (hnot (by decide)).elim) List.mem_cons_self

/-- `_updateStuckValidatorsCount` -/
theorem keeps_updateStuckValidatorsCountInternal (h : Invariant s)
    (hid : id < s.totalOperatorsCount)
    (hfits : fits → env.timestamp + s.stuckPenaltyDelay ≤ UINT64_MAX) :
    Keeps s fits [.ready, .penalties] (s.updateStuckValidatorsCountInternal env id n) := by
  have hwf := h.wellFormed id
  unfold updateStuckValidatorsCountInternal
  simp only
  split
  · exact keeps_pure h
  · refine (ensures_ensure hwf.exited_le_deposited).bind fun _ _ => ?_
    refine (ensures_require fun _ => not_false).bind fun _ hle => ?_
    have hn : n ≤ (s.operators id).deposited - (s.operators id).exited := hle
    have hexited := hwf.exited_le_deposited
    have hdeposited : (s.operators id).deposited ≤ UINT64_MAX := Packed.get_le
    refine (ensures_updateStuckPenaltyEnd fun _ => penaltyEnd_fits_or hfits).bind
      fun stats₁ hstats₁ => ?_
    refine (ensures_set (.inl (by omega))).bind fun stats hstats => ?_
    have hrefunded : stats.get REFUNDED_VALIDATORS_COUNT_OFFSET = (s.operators id).refunded :=
      (hstats.get_of_ne _ (by decide)).trans (hstats₁ _ (by decide))
    exact keeps_limits h hid (edited_of_stuck hwf (by omega) hstats.get hrefunded) rfl
      footprint_of_stuckPenaltyStats

/-- `_updateRefundValidatorsKeysCount` -/
theorem keeps_updateRefundValidatorsKeysCount (h : Invariant s)
    (hid : id < s.totalOperatorsCount)
    (hfits : fits → env.timestamp + s.stuckPenaltyDelay ≤ UINT64_MAX) :
    Keeps s fits [.ready, .penalties] (s.updateRefundValidatorsKeysCount env id n) := by
  have hwf := h.wellFormed id
  unfold updateRefundValidatorsKeysCount
  simp only
  split
  · exact keeps_pure h
  · refine (ensures_require fun _ => not_false).bind fun _ hle => ?_
    have hn : n ≤ (s.operators id).deposited := hle
    have hdeposited : (s.operators id).deposited ≤ UINT64_MAX := Packed.get_le
    refine (ensures_updateStuckPenaltyEnd fun _ => penaltyEnd_fits_or hfits).bind
      fun stats₁ hstats₁ => ?_
    refine (ensures_set (.inl (by omega))).bind fun stats hstats => ?_
    have hstuck : stats.get STUCK_VALIDATORS_COUNT_OFFSET = (s.operators id).stuck :=
      (hstats.get_of_ne _ (by decide)).trans (hstats₁ _ (by decide))
    have he := edited_of_stuckPenaltyStats hwf (hstuck.symm ▸ hwf.exited_add_stuck_le)
      (hstats.get.trans_le hn)
    exact keeps_limits h hid he rfl footprint_of_stuckPenaltyStats

/-- The one function that changes the deposit data without announcing it. -/
theorem keeps_updateRefundedValidatorsCount (h : Invariant s)
    (hfits : fits → env.timestamp + s.stuckPenaltyDelay ≤ UINT64_MAX) :
    Keeps s fits [.ready, .penalties] (s.updateRefundedValidatorsCount env id n) := by
  refine (ensures_require fun _ => not_false).bind fun _ hid => ?_
  refine (ensures_require fun _ => not_false).bind fun _ _ => ?_
  exact keeps_updateRefundValidatorsKeysCount h hid hfits

theorem keeps_unsafeUpdateValidatorsCount {m : Nat} (h : Invariant s)
    (hfits : fits → env.timestamp + s.stuckPenaltyDelay ≤ UINT64_MAX) :
    Keeps s fits [.nonce, .penalties] (s.unsafeUpdateValidatorsCount env id n m) := by
  refine (ensures_require fun _ => not_false).bind fun _ hid => ?_
  refine (ensures_require fun _ => not_false).bind fun _ _ => ?_
  refine (keeps_updateStuckValidatorsCountInternal h hid hfits).bind fun s₁ h₁ => ?_
  have hid₁ : id < s₁.totalOperatorsCount := h₁.totalOperatorsCount.symm ▸ hid
  have hexited : Keeps s₁ fits [.ready] (s₁.updateExitedValidatorsCountInternal env id n true) :=
    keeps_updateExitedValidatorsCountInternal h₁.invariant hid₁
  exact Keeps.increaseValidatorsKeysNonce
    ((hexited.widen (by decide)).after h₁.toFootprint h₁.toSameDeposits) (by decide)

/--
What every update of a listed operator keeps, the loop over a report keeps. The induction is over
the entries that are left.
-/
theorem ensures_reportLoop
    {update : NodeOperatorsRegistry → Nat → Nat → Call RegistryError NodeOperatorsRegistry}
    {allowed : Revert RegistryError → Prop} {P : NodeOperatorsRegistry → Prop}
    {ids counts : Bytes} {totalNodeOperatorsCount left i : Nat}
    (hrange : allowed (.error .outOfRange))
    (hupdate : ∀ s id n, P s → id < totalNodeOperatorsCount → Ensures allowed (update s id n) P)
    (h : P s) :
    Ensures allowed (reportLoop update totalNodeOperatorsCount ids counts left i s) P := by
  induction left generalizing i s with
  | zero => exact ensures_pure h
  | succ left ih =>
    refine (ensures_require hrange).bind fun _ hid => ?_
    exact (hupdate s _ _ h hid).bind fun s₁ h₁ => ih h₁

theorem keeps_reportLoop
    {update : NodeOperatorsRegistry → Nat → Nat → Call RegistryError NodeOperatorsRegistry}
    {ids counts : Bytes} {left i delay : Nat}
    (hupdate : ∀ {s id n}, Invariant s → s.stuckPenaltyDelay = delay →
      id < s.totalOperatorsCount → Keeps s fits (.ready :: parts) (update s id n))
    (h : Invariant s) (hdelay : s.stuckPenaltyDelay = delay) :
    Keeps s fits (.ready :: parts)
      (reportLoop update s.totalOperatorsCount ids counts left i s) := by
  refine ensures_reportLoop (fun _ => not_false) (fun s₁ id n h₁ hid => ?_)
    { SameDeposits.refl s, Footprint.refl _ s with invariant := h }
  have hid₁ : id < s₁.totalOperatorsCount := by rwa [h₁.totalOperatorsCount]
  exact Keeps.after (hupdate h₁.invariant (h₁.stuckPenaltyDelay.trans hdelay) hid₁)
    h₁.toFootprint h₁.toSameDeposits

theorem ensures_checkReportPayload {idsLength countsLength : Nat} :
    Ensures (Harmless fits) (checkReportPayload idsLength countsLength) fun _ => True :=
  (ensures_require fun _ => not_false).bind fun _ _ => ensures_pure trivial

theorem keeps_updateStuckValidatorsCount {ids counts : Bytes} (h : Invariant s)
    (hfits : fits → env.timestamp + s.stuckPenaltyDelay ≤ UINT64_MAX) :
    Keeps s fits [.nonce, .penalties] (s.updateStuckValidatorsCount env ids counts) := by
  refine (ensures_require fun _ => not_false).bind fun _ _ => ?_
  refine ensures_checkReportPayload.bind fun _ _ => ?_
  refine Keeps.increaseValidatorsKeysNonce (keeps_reportLoop (fun h₁ hdelay hid => ?_) h rfl)
    (by decide)
  exact keeps_updateStuckValidatorsCountInternal h₁ hid (hdelay.symm ▸ hfits)

theorem keeps_updateExitedValidatorsCount {ids counts : Bytes} (h : Invariant s) :
    Keeps s fits [.nonce] (s.updateExitedValidatorsCount env ids counts) := by
  refine (ensures_require fun _ => not_false).bind fun _ _ => ?_
  refine ensures_checkReportPayload.bind fun _ _ => ?_
  refine Keeps.increaseValidatorsKeysNonce (keeps_reportLoop (fun h₁ _ hid => ?_) h rfl)
    List.not_mem_nil
  exact keeps_updateExitedValidatorsCountInternal h₁ hid

theorem keeps_updateTargetValidatorsLimits {isTargetLimitActive : Bool} (h : Invariant s) :
    Keeps s fits [.nonce] (s.updateTargetValidatorsLimits env id isTargetLimitActive n) := by
  refine (ensures_require fun _ => not_false).bind fun _ hid => ?_
  refine (ensures_require fun _ => not_false).bind fun _ _ => ?_
  refine (ensures_require fun _ => not_false).bind fun _ hn => ?_
  refine (ensures_set (.inl ?_)).bind fun stats₁ hstats₁ => ?_
  · split <;> decide
  refine (ensures_set (.inl ?_)).bind fun stats hstats => ?_
  · split
    · exact hn
    · exact Nat.zero_le _
  refine Keeps.increaseValidatorsKeysNonce ?_ List.not_mem_nil
  have hmax : stats.get MAX_VALIDATORS_COUNT_OFFSET = (s.operators id).maxValidators :=
    (hstats.get_of_ne _ (by decide)).trans (hstats₁.get_of_ne _ (by decide))
  have hnew : NodeOperator.WellFormed { s.operators id with targetValidatorsStats := stats } :=
    { h.wellFormed id with }
  have hf : Footprint [.ready] s (s.saveOperatorTargetValidatorsStats id stats) :=
    footprint_of_update rfl rfl (fun _ => ⟨rfl, rfl⟩) (fun _ => Nat.le_refl _) (fun _ => rfl)
      List.mem_cons_self
  exact keeps_limits h hid (edited_of_eq hnew rfl rfl rfl hmax) rfl hf

/-- Only an operator that exists has a penalty to clear. -/
theorem keeps_clearNodeOperatorPenalty (h : Invariant s) :
    Keeps s fits [.nonce, .penalties] (s.clearNodeOperatorPenalty env id) := by
  refine (ensures_require fun _ => not_false).bind fun _ hcleared => ?_
  have hid : id < s.totalOperatorsCount := by
    by_contra hlt
    exact hcleared.2 (h.blank id (Nat.le_of_not_lt hlt)).penaltyEnd
  refine (ensures_set (.inl (Nat.zero_le _))).bind fun stats hstats => ?_
  refine Keeps.increaseValidatorsKeysNonce ?_ (by decide)
  have hwf := h.wellFormed id
  have hstuck : stats.get STUCK_VALIDATORS_COUNT_OFFSET = (s.operators id).stuck :=
    hstats.get_of_ne _ (by decide)
  have hrefunded : stats.get REFUNDED_VALIDATORS_COUNT_OFFSET = (s.operators id).refunded :=
    hstats.get_of_ne _ (by decide)
  have he := edited_of_stuckPenaltyStats hwf (hstuck.symm ▸ hwf.exited_add_stuck_le)
    (hrefunded.trans_le hwf.refunded_le)
  exact keeps_limits h hid he rfl footprint_of_stuckPenaltyStats

/-! ## Operators -/

theorem keeps_setOwner {adr : Address} {status : Bool} (h : Invariant s) :
    Keeps s fits [] (s.setOwner env adr status) := by
  refine (ensures_require fun _ => not_false).bind fun _ _ => ensures_pure ?_
  exact
    { SameDeposits.refl s with
      toFootprint := footprint_of_operators rfl rfl rfl
      invariant := { h with } }

/-- A change that neither the counters nor the limits depend on. -/
theorem keeps_of_edited (h : Invariant s) (hid : id < s.totalOperatorsCount)
    (he : Edited s s' id op 0 0 0 0) (hop : op.deposited = (s.operators id).deposited)
    (hsettled : op.Settled) (hf : Footprint parts s s') : Keeps s fits parts (pure s') :=
  ensures_pure { he.sameDeposits hop, hf with invariant := h.edited hid he hsettled }

theorem keeps_setNodeOperatorName {name : Bytes} (h : Invariant s) :
    Keeps s fits [] (s.setNodeOperatorName env id name) := by
  refine (ensures_require fun _ => not_false).bind fun _ _ => ?_
  refine (ensures_require fun _ => not_false).bind fun _ hid => ?_
  refine (ensures_require fun _ => not_false).bind fun _ _ => ?_
  refine (ensures_require fun _ => not_false).bind fun _ _ => ?_
  have hnew : NodeOperator.WellFormed { s.operators id with name := name } :=
    { h.wellFormed id with }
  exact keeps_of_edited h hid (edited_of_eq hnew rfl rfl rfl rfl) rfl (h.settled id)
    (footprint_of_sameStats rfl rfl rfl rfl rfl rfl fun _ => rfl)

theorem ensures_onlyValidRewardAddress {rewardAddress : Address} :
    Ensures (Harmless fits) (onlyValidRewardAddress env rewardAddress) fun _ => True :=
  (ensures_require fun _ => not_false).bind fun _ _ =>
    (ensures_require fun _ => not_false).mono fun _ _ => trivial

theorem keeps_setNodeOperatorRewardAddress {rewardAddress : Address} (h : Invariant s) :
    Keeps s fits [] (s.setNodeOperatorRewardAddress env id rewardAddress) := by
  refine ensures_onlyValidRewardAddress.bind fun _ _ => ?_
  refine (ensures_require fun _ => not_false).bind fun _ hid => ?_
  refine (ensures_require fun _ => not_false).bind fun _ _ => ?_
  refine (ensures_require fun _ => not_false).bind fun _ _ => ?_
  have hnew : NodeOperator.WellFormed { s.operators id with rewardAddress := rewardAddress } :=
    { h.wellFormed id with }
  exact keeps_of_edited h hid (edited_of_eq hnew rfl rfl rfl rfl) rfl (h.settled id)
    (footprint_of_sameStats rfl rfl rfl rfl rfl rfl fun _ => rfl)

theorem activity_le_one : op.activity ≤ 1 := by
  unfold NodeOperator.activity
  split
  · exact Nat.le_refl 1
  · exact Nat.zero_le 1

theorem activeOperatorsCount_le (h : Invariant s) :
    s.activeOperatorsCount ≤ s.totalOperatorsCount := by
  rw [h.active]
  refine (Finset.sum_le_sum fun i _ => activity_le_one).trans ?_
  rw [← Finset.card_eq_sum_ones, Finset.card_range]

theorem uncheckedAdd_activeOperatorsCount (h : Invariant s) :
    uncheckedAdd s.activeOperatorsCount 1 = s.activeOperatorsCount + 1 := by
  have hle := (activeOperatorsCount_le h).trans h.totalOperatorsCount_le
  refine uncheckedAdd_of_lt ?_
  unfold MAX_NODE_OPERATORS_COUNT at hle
  omega

theorem keeps_activateNodeOperator (h : Invariant s) :
    Keeps s fits [.nonce] (s.activateNodeOperator env id) := by
  refine (ensures_require fun _ => not_false).bind fun _ hid => ?_
  refine (ensures_require fun _ => not_false).bind fun _ _ => ?_
  refine (ensures_require fun _ => not_false).bind fun _ hinactive => ?_
  have hwf := h.wellFormed id
  have he : Edited s { s with
      activeOperatorsCount := uncheckedAdd s.activeOperatorsCount 1
      operators := Function.update s.operators id { s.operators id with active := true } }
      id { s.operators id with active := true } 0 0 0 0 :=
    { operators := rfl, totalOperatorsCount := rfl, stuckPenaltyDelay := rfl, max := rfl
      exited := rfl, total := rfl, deposited := rfl
      wellFormed := { hwf with vetted_of_inactive := fun hactive => by cases hactive }
      active := by
        rw [uncheckedAdd_activeOperatorsCount h]
        simp only [NodeOperator.activity, hinactive, if_pos, Bool.false_eq_true, if_false] }
  refine Keeps.increaseValidatorsKeysNonce (keeps_of_edited h hid he rfl (h.settled id) ?_)
    List.not_mem_nil
  exact footprint_of_update rfl rfl (fun _ => ⟨rfl, rfl⟩) (fun _ => Nat.le_refl _) (fun _ => rfl)
    List.mem_cons_self

theorem keeps_deactivateNodeOperator (h : Invariant s) :
    Keeps s fits [.nonce] (s.deactivateNodeOperator env id) := by
  refine (ensures_require fun _ => not_false).bind fun _ hid => ?_
  refine (ensures_require fun _ => not_false).bind fun _ _ => ?_
  refine (ensures_require fun _ => not_false).bind fun _ hactive => ?_
  have hone : (s.operators id).activity = 1 := if_pos hactive
  have hle : 1 ≤ s.activeOperatorsCount := by
    rw [h.active, ← hone]
    exact le_sumOver hid
  have hactivity : s.activeOperatorsCount - 1 + (s.operators id).activity
      = s.activeOperatorsCount + 0 := by omega
  have hwf := h.wellFormed id
  refine (ensures_safeSub hle).bind ?_
  rintro _ rfl
  simp only [Function.update_self]
  split
  · next hlt =>
    refine (ensures_set (.inl Packed.get_le)).bind fun stats hstats => ?_
    refine Keeps.increaseValidatorsKeysNonce ?_ List.not_mem_nil
    have hvetted : stats.get TOTAL_VETTED_KEYS_COUNT_OFFSET = (s.operators id).deposited :=
      hstats.get
    have hexited : stats.get TOTAL_EXITED_KEYS_COUNT_OFFSET = (s.operators id).exited :=
      hstats.get_of_ne _ (by decide)
    have htotal : stats.get TOTAL_KEYS_COUNT_OFFSET = (s.operators id).total :=
      hstats.get_of_ne _ (by decide)
    have hdeposited : stats.get TOTAL_DEPOSITED_KEYS_COUNT_OFFSET = (s.operators id).deposited :=
      hstats.get_of_ne _ (by decide)
    have hnew : NodeOperator.WellFormed
        { s.operators id with active := false, signingKeysStats := stats } :=
      @wellFormed_of_signingKeysStats { s.operators id with active := false } stats _ _ _ _ hvetted
        hexited htotal hdeposited hwf.exited_add_stuck_le hwf.refunded_le (Nat.le_refl _)
        hwf.deposited_le_total fun _ => rfl
    have he : Edited s
        ({ s with
          activeOperatorsCount := s.activeOperatorsCount - 1
          operators := Function.update s.operators id
            { s.operators id with active := false } }.saveOperatorSigningKeysStats id stats)
        id { s.operators id with active := false, signingKeysStats := stats } 0 0 0 0 :=
      { operators := by
          simp only [saveOperatorSigningKeysStats, Function.update_idem, Function.update_self]
        totalOperatorsCount := rfl
        stuckPenaltyDelay := rfl
        wellFormed := hnew
        max := rfl
        exited := congrArg (_ + ·) hexited.symm
        total := congrArg (_ + · + 0) htotal.symm
        deposited := congrArg (_ + ·) hdeposited.symm
        active := hactivity }
    exact keeps_limits h hid he hdeposited (footprint_of_update he.operators rfl
      (fun _ => ⟨rfl, htotal⟩) (fun _ => hvetted.le.trans hlt.le) (fun _ => rfl)
      List.mem_cons_self)
  · next hge =>
    -- the vetted count is the deposited count already
    have hvetted : (s.operators id).vetted = (s.operators id).deposited :=
      Nat.le_antisymm (Nat.le_of_not_lt hge) hwf.deposited_le_vetted
    have he : Edited s { s with
        activeOperatorsCount := s.activeOperatorsCount - 1
        operators := Function.update s.operators id { s.operators id with active := false } }
        id { s.operators id with active := false } 0 0 0 0 :=
      { operators := rfl, totalOperatorsCount := rfl, stuckPenaltyDelay := rfl, max := rfl
        exited := rfl, total := rfl, deposited := rfl
        wellFormed := { hwf with vetted_of_inactive := fun _ => hvetted }
        active := hactivity }
    refine Keeps.increaseValidatorsKeysNonce (keeps_of_edited h hid he rfl (h.settled id) ?_)
      List.not_mem_nil
    exact footprint_of_update rfl rfl (fun _ => ⟨rfl, rfl⟩) (fun _ => Nat.le_refl _) (fun _ => rfl)
      List.mem_cons_self

/-- The one function that vets keys. -/
theorem keeps_setNodeOperatorStakingLimit (h : Invariant s) :
    Keeps s fits [.nonce, .vetted] (s.setNodeOperatorStakingLimit env id n) := by
  refine (ensures_require fun _ => not_false).bind fun _ _ => ?_
  refine (ensures_require fun _ => not_false).bind fun _ hid => ?_
  refine (ensures_require fun _ => not_false).bind fun _ hactive => ?_
  have hwf := h.wellFormed id
  simp only
  split
  · exact keeps_pure h
  · refine (ensures_set (.inl ((Nat.min_le_left _ _).trans Packed.get_le))).bind fun stats hstats => ?_
    refine Keeps.increaseValidatorsKeysNonce ?_ (by decide)
    have hexited : stats.get TOTAL_EXITED_KEYS_COUNT_OFFSET = (s.operators id).exited :=
      hstats.get_of_ne _ (by decide)
    have htotal : stats.get TOTAL_KEYS_COUNT_OFFSET = (s.operators id).total :=
      hstats.get_of_ne _ (by decide)
    have hdeposited : stats.get TOTAL_DEPOSITED_KEYS_COUNT_OFFSET = (s.operators id).deposited :=
      hstats.get_of_ne _ (by decide)
    have hnew : NodeOperator.WellFormed { s.operators id with signingKeysStats := stats } :=
      wellFormed_of_signingKeysStats hstats.get hexited htotal hdeposited hwf.exited_add_stuck_le
        hwf.refunded_le (Nat.le_min.mpr ⟨hwf.deposited_le_total, Nat.le_max_right _ _⟩)
        (Nat.min_le_left _ _)
        (fun hinactive => absurd (hactive.symm.trans hinactive) Bool.noConfusion)
    have he : Edited s (s.saveOperatorSigningKeysStats id stats) id
        { s.operators id with signingKeysStats := stats } 0 0 0 0 :=
      edited_of_signingKeysStats hnew rfl (by rw [hexited]) (by rw [htotal]) (by rw [hdeposited])
    exact keeps_limits h hid he hdeposited (footprint_of_update rfl rfl (fun _ => ⟨rfl, htotal⟩)
      (fun hnot => (hnot (by decide)).elim) (fun _ => rfl) List.mem_cons_self)

/-- What holds after every call: deposits are never undone. -/
structure Grown (parts : List RegistryPart) (s s' : NodeOperatorsRegistry) : Prop
    extends Footprint parts s s' where
  invariant : Invariant s'
  deposited_le : ∀ i, (s.operators i).deposited ≤ (s'.operators i).deposited

theorem Kept.grown (h : Kept parts s s') : Grown parts s s' :=
  { h.toFootprint with
    invariant := h.invariant
    deposited_le := fun i => (h.deposited i).ge }

theorem ensures_setStuckPenaltyDelay (h : Invariant s) :
    Ensures (Harmless fits) (s.setStuckPenaltyDelay env n) (Grown [] s) := by
  refine (ensures_require fun _ => not_false).bind fun _ _ => ?_
  refine (ensures_require fun _ => not_false).bind fun _ hn => ensures_pure ?_
  exact
    { toFootprint := footprint_of_operators rfl rfl rfl
      invariant := { h with stuckPenaltyDelay_le := hn }
      deposited_le := fun _ => Nat.le_refl _ }

/-- A new operator at the end adds its counters to the sums. -/
theorem sumOver_added (hoperators : s'.operators = Function.update s.operators s.totalOperatorsCount op)
    (hcount : s'.totalOperatorsCount = s.totalOperatorsCount + 1) (f : NodeOperator → Nat) :
    s'.sumOver f = s.sumOver f + f op := by
  unfold sumOver
  rw [hcount, hoperators, Finset.sum_range_succ, Function.update_self]
  congr 1
  refine Finset.sum_congr rfl fun i hi => ?_
  rw [Function.update_of_ne (Nat.ne_of_lt (Finset.mem_range.mp hi))]

/-- An operator without keys is added at the end. -/
theorem invariant_added (h : Invariant s)
    (hoperators : s'.operators = Function.update s.operators s.totalOperatorsCount op)
    (hcount : s'.totalOperatorsCount = s.totalOperatorsCount + 1)
    (hsummary : s'.summarySigningKeysStats = s.summarySigningKeysStats)
    (hactive : s'.activeOperatorsCount = s.activeOperatorsCount + op.activity)
    (hdelay : s'.stuckPenaltyDelay = s.stuckPenaltyDelay)
    (hlt : s.totalOperatorsCount < MAX_NODE_OPERATORS_COUNT)
    (hwf : op.WellFormed) (hsettled : op.Settled) (htotal : op.total = 0) : Invariant s' := by
  have hsum := fun f => sumOver_added hoperators hcount f
  have hvetted := hwf.vetted_le_total
  have hdeposited := hwf.deposited_le_vetted
  have hexited := hwf.exited_le_deposited
  have hmax : op.maxValidators ≤ op.vetted := hsettled ▸ hwf.limit_le_vetted
  refine { wellFormed := fun i => ?_, settled := fun i => ?_, blank := fun i hi => ?_, max := ?_,
           exited := ?_, total := ?_, deposited := ?_, active := ?_, totalOperatorsCount_le := ?_,
           stuckPenaltyDelay_le := ?_ }
  · rw [hoperators]
    rcases eq_or_ne i s.totalOperatorsCount with rfl | hne
    · rw [Function.update_self]
      exact hwf
    · rw [Function.update_of_ne hne]
      exact h.wellFormed i
  · rw [hoperators, Function.update_of_ne (by omega)]
    exact h.blank i (by omega)
  · rw [hsum, hsummary, h.max]
    omega
  · rw [hsum, hsummary, h.exited]
    omega
  · rw [hsum, hsummary, h.total]
    omega
  · rw [hsum, hsummary, h.deposited]
    omega
  · rw [hsum, hactive, h.active]
  · omega
  · rw [hdelay]
    exact h.stuckPenaltyDelay_le
  · rw [hoperators]
    rcases eq_or_ne i s.totalOperatorsCount with rfl | hne
    · rw [Function.update_self]
      exact hsettled
    · rw [Function.update_of_ne hne]
      exact h.settled i

theorem ensures_addNodeOperator {name : Bytes} {rewardAddress : Address} (h : Invariant s) :
    Ensures (Harmless fits) (s.addNodeOperator env name rewardAddress) fun r => Grown [] s r.1 := by
  refine (ensures_require fun _ => not_false).bind fun _ _ => ?_
  refine (ensures_require fun _ => not_false).bind fun _ _ => ?_
  refine ensures_onlyValidRewardAddress.bind fun _ _ => ?_
  refine (ensures_require fun _ => not_false).bind fun _ _ => ?_
  refine (ensures_require fun _ => not_false).bind fun _ hcount => ?_
  have hcount' : uncheckedAdd s.totalOperatorsCount 1 = s.totalOperatorsCount + 1 := by
    refine uncheckedAdd_of_lt ?_
    unfold MAX_NODE_OPERATORS_COUNT at hcount
    omega
  have hblank := h.blank s.totalOperatorsCount (Nat.le_refl _)
  -- the operator did not exist before, so none that did was switched on
  refine ensures_pure
    { toFootprint := footprint_of_sameStats rfl rfl rfl rfl rfl rfl
        fun hlt => absurd hlt (Nat.lt_irrefl _)
      invariant := ?_
      deposited_le := fun i => ?_ }
  · exact invariant_added h rfl hcount' rfl (uncheckedAdd_activeOperatorsCount h) rfl hcount
      { hblank.wellFormed with vetted_of_inactive := fun hactive => by cases hactive }
      hblank.settled hblank.total
  · simp only [Function.update_apply]
    split
    · next heq =>
      subst heq
      exact Nat.le_refl _
    · exact Nat.le_refl _

end NodeOperatorsRegistry

end Catalist
