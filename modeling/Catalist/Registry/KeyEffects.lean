import Catalist.Registry.Effects
import Catalist.Registry.Keys

/-!
# What the functions for keys keep

Adding, removing and invalidating keys change the total and the vetted count of operators; keys
that are deposited stay. The total of all operators may run out of its 64 bits when keys are added.
-/

namespace Catalist

open Solidity ByteBuffer

namespace NodeOperatorsRegistry

variable {s s' : NodeOperatorsRegistry} {env : RegistryEnv} {id n : Nat} {op : NodeOperator}
  {fits : Prop} {getKeyOffset : Nat → Nat → BitVec 256}

/-! ## The library for keys -/

theorem ensures_safeAdd {a b : Nat} :
    Ensures (Harmless fits) (safeAdd a b) fun c => c = a + b :=
  (ensures_require fun _ => not_false).bind fun _ _ => ensures_pure rfl

theorem ensures_safeMul {a b : Nat} :
    Ensures (Harmless fits) (safeMul a b) fun c => c = a * b :=
  (ensures_require fun _ => not_false).bind fun _ _ => ensures_pure rfl

/-- The induction is over the keys that are left. -/
theorem ensures_saveKeysSigsLoop {publicKeys signatures : Bytes} {left i startIndex : Nat}
    {storage : SigningKeys.Storage} :
    Ensures (Harmless fits) (SigningKeys.saveKeysSigsLoop getKeyOffset id publicKeys signatures
      left i startIndex storage) fun r => r.2 = startIndex + left := by
  induction left generalizing i startIndex storage with
  | zero => exact ensures_pure rfl
  | succ left ih =>
    have hsave : Ensures (Harmless fits) (SigningKeys.saveKeySig storage publicKeys signatures
        (getKeyOffset id startIndex) i) fun _ => True :=
      (ensures_require fun _ => not_false).bind fun _ _ => ensures_pure trivial
    refine hsave.bind fun storage _ => ih.mono fun r hr => ?_
    omega

theorem ensures_saveKeysSigs {publicKeys signatures : Bytes} {startIndex : Nat}
    {storage : SigningKeys.Storage} :
    Ensures (Harmless fits) (SigningKeys.saveKeysSigs storage getKeyOffset id startIndex n
      publicKeys signatures) fun r => r.2 = startIndex + n := by
  refine (ensures_require fun _ => not_false).bind fun _ _ => ?_
  refine ensures_safeAdd.bind fun _ _ => ?_
  refine (ensures_require fun _ => not_false).bind fun _ _ => ?_
  refine ensures_safeMul.bind fun _ _ => ?_
  refine (ensures_require fun _ => not_false).bind fun _ _ => ?_
  refine ensures_safeMul.bind fun _ _ => ?_
  refine (ensures_require fun _ => not_false).bind fun _ _ => ?_
  exact ensures_saveKeysSigsLoop

theorem removeKeysSigsLoop_count {startIndex left totalKeysCount : Nat}
    {storage : SigningKeys.Storage} :
    (SigningKeys.removeKeysSigsLoop getKeyOffset id startIndex left totalKeysCount storage).2
      = totalKeysCount - left := by
  induction left generalizing totalKeysCount storage with
  | zero => rfl
  | succ left ih =>
    rw [SigningKeys.removeKeysSigsLoop, ih]
    omega

theorem ensures_removeKeysSigs {startIndex totalKeysCount : Nat} {storage : SigningKeys.Storage} :
    Ensures (Harmless fits) (SigningKeys.removeKeysSigs storage getKeyOffset id startIndex n
      totalKeysCount) fun r => r.2 = totalKeysCount - n := by
  refine (ensures_require fun _ => not_false).bind fun _ _ => ?_
  refine ensures_safeAdd.bind fun _ _ => ?_
  refine (ensures_require fun _ => not_false).bind fun _ _ => ?_
  exact ensures_pure removeKeysSigsLoop_count

/-! ## Adding -/

/-- The keys of an operator were written to storage; its counts follow. -/
theorem footprint_of_storage (signingKeys : SigningKeys.Storage) :
    Footprint [.ready, .keys] s { s with signingKeys := signingKeys } where
  keys hnot := (hnot (by decide)).elim
  vetted_le _ _ := Nat.le_refl _
  stuckPenaltyStats _ _ := rfl
  nonce _ := rfl
  announced hnot := (hnot (by decide)).elim

theorem footprint_of_keyCounts {stats summary : Packed}
    (hvetted : stats.get TOTAL_VETTED_KEYS_COUNT_OFFSET ≤ (s.operators id).vetted) :
    Footprint [.ready, .keys] s
      ((s.saveOperatorSigningKeysStats id stats).saveSummarySigningKeysStats summary) :=
  footprint_of_update rfl rfl (fun hnot => (hnot (by decide)).elim) (fun _ => hvetted)
    (fun _ => rfl) (by decide)

/-- The maximum stays up to date when only the total changes. -/
theorem settled_of_total {stats : Packed} (h : op.Settled)
    (hstats : ∀ m, m ≠ TOTAL_KEYS_COUNT_OFFSET → stats.get m = op.signingKeysStats.get m) :
    NodeOperator.Settled { op with signingKeysStats := stats } := by
  refine Eq.trans h (Eq.symm (NodeOperator.limit_congr ?_ ?_ ?_ rfl rfl rfl rfl rfl))
  · exact hstats TOTAL_VETTED_KEYS_COUNT_OFFSET (by decide)
  · exact hstats TOTAL_EXITED_KEYS_COUNT_OFFSET (by decide)
  · exact hstats TOTAL_DEPOSITED_KEYS_COUNT_OFFSET (by decide)

theorem keeps_addSigningKeysInternal {publicKeys signatures : Bytes} (h : Invariant s)
    (hfits : fits → s.sumOver NodeOperator.total + n ≤ UINT64_MAX) :
    Keeps s fits [.nonce, .keys]
      (s.addSigningKeysInternal getKeyOffset id n publicKeys signatures) := by
  have hwf := h.wellFormed id
  refine (ensures_require fun _ => not_false).bind fun _ hid => ?_
  refine (ensures_require fun _ => not_false).bind fun _ _ => ?_
  refine (ensures_require fun _ => not_false).bind fun _ _ => ?_
  refine ensures_safeAdd.bind ?_
  rintro _ rfl
  refine (ensures_require fun _ => not_false).bind fun _ hle => ?_
  refine ensures_saveKeysSigs.bind ?_
  rintro ⟨signingKeys, _⟩ rfl
  refine (ensures_set (.inl hle)).bind fun stats hstats => ?_
  -- the total of the summary is the one count that has no check of its own
  have hroom : s.summarySigningKeysStats.get SUMMARY_TOTAL_KEYS_COUNT_OFFSET + n ≤ UINT64_MAX ∨
      ∀ e, Harmless fits (.error (.packed e)) := by
    by_cases hf : fits
    · rw [h.total]
      exact .inl (hfits hf)
    · exact .inr fun _ hf' => absurd hf' hf
  refine (ensures_add hroom).bind fun summary hsummary => ?_
  have htotal : stats.get TOTAL_KEYS_COUNT_OFFSET = (s.operators id).total + n := hstats.get
  have hvetted : stats.get TOTAL_VETTED_KEYS_COUNT_OFFSET = (s.operators id).vetted :=
    hstats.get_of_ne _ (by decide)
  have hexited : stats.get TOTAL_EXITED_KEYS_COUNT_OFFSET = (s.operators id).exited :=
    hstats.get_of_ne _ (by decide)
  have hdeposited : stats.get TOTAL_DEPOSITED_KEYS_COUNT_OFFSET = (s.operators id).deposited :=
    hstats.get_of_ne _ (by decide)
  have hnew : NodeOperator.WellFormed { s.operators id with signingKeysStats := stats } :=
    wellFormed_of_signingKeysStats hvetted hexited htotal hdeposited hwf.exited_add_stuck_le
      hwf.refunded_le hwf.deposited_le_vetted
      (hwf.vetted_le_total.trans (Nat.le_add_right _ _)) hwf.vetted_of_inactive
  have hkeys : Invariant { s with signingKeys := signingKeys } := { h with }
  have he : Edited { s with signingKeys := signingKeys }
      (({ s with signingKeys := signingKeys }.saveOperatorSigningKeysStats id
        stats).saveSummarySigningKeysStats summary) id
      { s.operators id with signingKeysStats := stats } 0 0 0 0 := by
    refine edited_of_signingKeysStats hnew (hsummary.get_of_ne _ (by decide)) ?_ ?_ ?_
    · rw [hsummary.get_of_ne _ (by decide), hexited]
    · rw [hsummary.get, htotal]
      show s.summarySigningKeysStats.get _ + n + (s.operators id).total + 0
        = s.summarySigningKeysStats.get _ + ((s.operators id).total + n) + 0
      omega
    · rw [hsummary.get_of_ne _ (by decide), hdeposited]
  have hsettled := settled_of_total (h.settled id) hstats.get_of_ne
  have hstored : Footprint [.ready, .keys] s { s with signingKeys := signingKeys } :=
    footprint_of_storage signingKeys
  exact Keeps.increaseValidatorsKeysNonce
    (Keeps.after (keeps_of_edited hkeys hid he hdeposited hsettled
      (footprint_of_keyCounts hvetted.le)) hstored ⟨rfl, rfl, fun _ => rfl⟩) (by decide)

theorem keeps_addSigningKeys {publicKeys signatures : Bytes} (h : Invariant s)
    (hfits : fits → s.sumOver NodeOperator.total + n ≤ UINT64_MAX) :
    Keeps s fits [.nonce, .keys] (s.addSigningKeys getKeyOffset env id n publicKeys signatures) :=
  (ensures_require fun _ => not_false).bind fun _ _ => keeps_addSigningKeysInternal h hfits

/-! ## Removing -/

theorem keeps_removeUnusedSigningKeys {fromIndex : Nat} (h : Invariant s) :
    Keeps s fits [.nonce, .keys] (s.removeUnusedSigningKeys getKeyOffset env id fromIndex n) := by
  have hwf := h.wellFormed id
  refine (ensures_require fun _ => not_false).bind fun _ hid => ?_
  refine (ensures_require fun _ => not_false).bind fun _ hactive => ?_
  split
  · exact keeps_pure h
  · refine (ensures_require fun _ => not_false).bind fun _ hfrom => ?_
    refine ensures_safeAdd.bind ?_
    rintro _ rfl
    refine (ensures_require fun _ => not_false).bind fun _ hend => ?_
    -- the removed keys lie between the deposited ones and the end
    have hfrom' : (s.operators id).deposited ≤ fromIndex := hfrom
    have hend' : fromIndex + n ≤ (s.operators id).total := hend
    refine ensures_removeKeysSigs.bind ?_
    rintro ⟨signingKeys, _⟩ rfl
    refine (ensures_set (.inl ((Nat.sub_le _ _).trans Packed.get_le))).bind fun stats₁ hstats₁ => ?_
    have hvetted₁ : stats₁.get TOTAL_VETTED_KEYS_COUNT_OFFSET = (s.operators id).vetted :=
      hstats₁.get_of_ne _ (by decide)
    refine ensures_lower.bind fun stats hstats => ?_
    rw [hvetted₁] at hstats
    have hold : n ≤ s.summarySigningKeysStats.get SUMMARY_TOTAL_KEYS_COUNT_OFFSET := by
      rw [h.total]
      exact (Nat.le_add_left _ _).trans (hend'.trans (le_sumOver hid))
    refine (ensures_sub hold).bind fun summary hsummary => ?_
    refine Keeps.increaseValidatorsKeysNonce ?_ (by decide)
    have htotal : stats.get TOTAL_KEYS_COUNT_OFFSET = (s.operators id).total - n :=
      (hstats.get_of_ne _ (by decide)).trans hstats₁.get
    have hexited : stats.get TOTAL_EXITED_KEYS_COUNT_OFFSET = (s.operators id).exited :=
      (hstats.get_of_ne _ (by decide)).trans (hstats₁.get_of_ne _ (by decide))
    have hdeposited : stats.get TOTAL_DEPOSITED_KEYS_COUNT_OFFSET = (s.operators id).deposited :=
      (hstats.get_of_ne _ (by decide)).trans (hstats₁.get_of_ne _ (by decide))
    have hnew : NodeOperator.WellFormed { s.operators id with signingKeysStats := stats } :=
      wellFormed_of_signingKeysStats hstats.get hexited htotal hdeposited hwf.exited_add_stuck_le
        hwf.refunded_le (Nat.le_min.mpr ⟨hwf.deposited_le_vetted, hfrom'⟩) (by omega)
        (fun hinactive => absurd (hactive.symm.trans hinactive) Bool.noConfusion)
    have hkeys : Invariant { s with signingKeys := signingKeys } := { h with }
    have he : Edited { s with signingKeys := signingKeys }
        (({ s with signingKeys := signingKeys }.saveOperatorSigningKeysStats id
          stats).saveSummarySigningKeysStats summary) id
        { s.operators id with signingKeysStats := stats } 0 0 0 0 := by
      refine edited_of_signingKeysStats hnew (hsummary.get_of_ne _ (by decide)) ?_ ?_ ?_
      · rw [hsummary.get_of_ne _ (by decide), hexited]
      · rw [hsummary.get, htotal]
        show s.summarySigningKeysStats.get _ - n + (s.operators id).total + 0
          = s.summarySigningKeysStats.get _ + ((s.operators id).total - n) + 0
        omega
      · rw [hsummary.get_of_ne _ (by decide), hdeposited]
    have hstored : Footprint [.ready, .keys] s { s with signingKeys := signingKeys } :=
      footprint_of_storage signingKeys
    refine Keeps.after ?_ hstored ⟨rfl, rfl, fun _ => rfl⟩
    exact keeps_limits hkeys hid he hdeposited
      (footprint_of_keyCounts (hstats.get.le.trans (Nat.min_le_left _ _)))

theorem keeps_removeSigningKeys {fromIndex : Nat} (h : Invariant s) :
    Keeps s fits [.nonce, .keys] (s.removeSigningKeys getKeyOffset env id fromIndex n) :=
  (ensures_require fun _ => not_false).bind fun _ _ => keeps_removeUnusedSigningKeys h

/-! ## Invalidating -/

/--
The induction is over the ids that are left; the summary lags behind by the trimmed keys. If none
are trimmed, nothing happens.
-/
theorem ensures_invalidateLoop {ids : List Nat} {trimmed : Nat} (h : Balanced s 0 trimmed)
    (hids : ∀ id ∈ ids, id < s.totalOperatorsCount) :
    Ensures (Harmless fits) (invalidateLoop env ids trimmed s) fun r =>
      Balanced r.1 0 r.2 ∧ SameDeposits s r.1 ∧ Footprint [.ready, .keys] s r.1 ∧
        trimmed ≤ r.2 ∧ (r.2 = trimmed → r.1 = s) := by
  induction ids generalizing s trimmed with
  | nil =>
    exact ensures_pure
      ⟨h, SameDeposits.refl s, Footprint.refl _ s, Nat.le_refl _, fun _ => rfl⟩
  | cons id ids ih =>
    have hid : id < s.totalOperatorsCount := hids id List.mem_cons_self
    have htail : ∀ i ∈ ids, i < s.totalOperatorsCount :=
      fun i hi => hids i (List.mem_cons_of_mem _ hi)
    have hwf := h.wellFormed id
    unfold invalidateLoop
    simp only
    split
    · exact ih h htail
    · next hne =>
      have hlt : (s.operators id).deposited < (s.operators id).total :=
        Nat.lt_of_le_of_ne hwf.deposited_le_total (Ne.symm hne)
      refine (ensures_ensure hlt).bind fun _ _ => ?_
      refine (ensures_set (.inl Packed.get_le)).bind fun stats₁ hstats₁ => ?_
      refine (ensures_set (.inl Packed.get_le)).bind fun stats hstats => ?_
      -- what has been trimmed so far is part of the summary, which has 64 bits
      have htrimmed : uncheckedAdd trimmed
            ((s.operators id).total - (s.operators id).deposited)
          = trimmed + ((s.operators id).total - (s.operators id).deposited) := by
        refine uncheckedAdd_of_lt ?_
        have htotal := h.total
        have hsum : (s.operators id).total ≤ s.sumOver NodeOperator.total := le_sumOver hid
        have hbound : s.summarySigningKeysStats.get SUMMARY_TOTAL_KEYS_COUNT_OFFSET < 2 ^ 64 :=
          Packed.get_lt
        omega
      have hvetted : stats.get TOTAL_VETTED_KEYS_COUNT_OFFSET = (s.operators id).deposited :=
        hstats.get
      have htotal : stats.get TOTAL_KEYS_COUNT_OFFSET = (s.operators id).deposited :=
        (hstats.get_of_ne _ (by decide)).trans hstats₁.get
      have hexited : stats.get TOTAL_EXITED_KEYS_COUNT_OFFSET = (s.operators id).exited :=
        (hstats.get_of_ne _ (by decide)).trans (hstats₁.get_of_ne _ (by decide))
      have hdeposited : stats.get TOTAL_DEPOSITED_KEYS_COUNT_OFFSET = (s.operators id).deposited :=
        (hstats.get_of_ne _ (by decide)).trans (hstats₁.get_of_ne _ (by decide))
      have hnew : NodeOperator.WellFormed { s.operators id with signingKeysStats := stats } :=
        wellFormed_of_signingKeysStats hvetted hexited htotal hdeposited hwf.exited_add_stuck_le
          hwf.refunded_le (Nat.le_refl _) (Nat.le_refl _) fun _ => rfl
      have he : Edited s (s.saveOperatorSigningKeysStats id stats) id
          { s.operators id with signingKeysStats := stats } 0 trimmed 0
          (trimmed + ((s.operators id).total - (s.operators id).deposited)) := by
        refine edited_of_signingKeysStats hnew rfl (by rw [hexited]) ?_ (by rw [hdeposited])
        rw [htotal]
        omega
      refine (h.ensures_limits hid he).bind fun s₁ h₁ => ?_
      have hsame : SameDeposits s s₁ := (he.sameDeposits hdeposited).trans h₁.2.sameDeposits
      have hcut : Footprint [.ready, .keys] s (s.saveOperatorSigningKeysStats id stats) :=
        footprint_of_keyCounts (hvetted.le.trans hwf.deposited_le_vetted)
      have hf : Footprint [.ready, .keys] s s₁ :=
        hcut.trans (h₁.2.footprint List.mem_cons_self) List.mem_cons_self
      change Ensures _ (invalidateLoop env ids (uncheckedAdd trimmed
        ((s.operators id).total - (s.operators id).deposited)) s₁) _
      rw [htrimmed]
      refine (ih h₁.1 ?_).mono fun r hr => ?_
      · rw [hsame.totalOperatorsCount]
        exact htail
      · obtain ⟨hbalanced, hdeposits, hrest, hle, -⟩ := hr
        exact ⟨hbalanced, hsame.trans hdeposits, hf.trans hrest List.mem_cons_self, by omega,
          fun heq => by omega⟩

theorem keeps_invalidateReadyToDepositKeysRangeInternal {m : Nat} (h : Invariant s) :
    Keeps s fits [.nonce, .keys] (s.invalidateReadyToDepositKeysRangeInternal env n m) := by
  refine (ensures_require fun _ => not_false).bind fun _ hrange => ?_
  have hids : ∀ id ∈ List.range' n (m + 1 - n), id < s.totalOperatorsCount := by
    intro id hid
    have hlt := (List.mem_range'_1.mp hid).2
    omega
  refine (ensures_invalidateLoop h hids).bind ?_
  rintro ⟨s₁, trimmed⟩ ⟨h₁, hsame, hf, -, hnone⟩
  simp only
  split
  · have htotal : s₁.summarySigningKeysStats.get SUMMARY_TOTAL_KEYS_COUNT_OFFSET
        = s₁.sumOver NodeOperator.total + trimmed := h₁.total
    have hle : trimmed ≤ s₁.summarySigningKeysStats.get SUMMARY_TOTAL_KEYS_COUNT_OFFSET := by
      omega
    refine (ensures_sub hle).bind fun summary hsummary => ?_
    have hbalanced : Invariant (s₁.saveSummarySigningKeysStats summary) :=
      { h₁ with
        max := (hsummary.get_of_ne _ (by decide)).trans h₁.max
        exited := (hsummary.get_of_ne _ (by decide)).trans h₁.exited
        total := by
          show summary.get _ = s₁.sumOver NodeOperator.total + 0
          rw [hsummary.get, htotal, Nat.add_sub_cancel, Nat.add_zero]
        deposited := (hsummary.get_of_ne _ (by decide)).trans h₁.deposited }
    have hkept : Kept [.ready, .keys] s (s₁.saveSummarySigningKeysStats summary) :=
      { toSameDeposits := { hsame with }
        toFootprint := hf.trans (footprint_of_operators rfl rfl rfl) List.mem_cons_self
        invariant := hbalanced }
    exact Keeps.increaseValidatorsKeysNonce (ensures_pure hkept) (by decide)
  · -- nothing was trimmed, and the nonce stays
    next hzero =>
    obtain rfl : s₁ = s := hnone (Nat.eq_zero_of_not_pos hzero)
    exact keeps_pure h

theorem keeps_invalidateReadyToDepositKeysRange {m : Nat} (h : Invariant s) :
    Keeps s fits [.nonce, .keys] (s.invalidateReadyToDepositKeysRange env n m) :=
  (ensures_require fun _ => not_false).bind fun _ _ =>
    keeps_invalidateReadyToDepositKeysRangeInternal h

theorem keeps_onWithdrawalCredentialsChanged (h : Invariant s) :
    Keeps s fits [.nonce, .keys] (s.onWithdrawalCredentialsChanged env) := by
  refine (ensures_require fun _ => not_false).bind fun _ _ => ?_
  simp only
  split
  · exact keeps_invalidateReadyToDepositKeysRangeInternal h
  · exact keeps_pure h

end NodeOperatorsRegistry

end Catalist
