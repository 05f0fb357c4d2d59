import Catalist.Registry.Invariant

/-!
# What a call leaves alone

A call names the parts of the registry that it may change; everything else is as before. A change of
the deposit data must be announced by the nonce: either the nonce is increased by one, or the keys
that are ready to be deposited stay.
-/

namespace Catalist

open Solidity

/-- What a call of the registry may change. -/
inductive RegistryPart where
  | keys
  | vetted
  | penalties
  | nonce
  | ready
  deriving DecidableEq

namespace NodeOperatorsRegistry

variable {s s' s'' : NodeOperatorsRegistry} {env : RegistryEnv} {id n : Nat} {op : NodeOperator}
  {parts parts' : List RegistryPart}

/-- The same keys are stored, and every operator has as many as before. -/
structure SameKeys (s s' : NodeOperatorsRegistry) : Prop where
  signingKeys : s'.signingKeys = s.signingKeys
  total : ∀ i, (s'.operators i).total = (s.operators i).total

/-- The same keys are ready to be deposited, and no operator that exists was switched on or off. -/
structure SameReady (s s' : NodeOperatorsRegistry) : Prop where
  signingKeys : s'.signingKeys = s.signingKeys
  deposited : ∀ i, (s'.operators i).deposited = (s.operators i).deposited
  maxValidators : ∀ i, (s'.operators i).maxValidators = (s.operators i).maxValidators
  active : ∀ i, i < s.totalOperatorsCount → (s'.operators i).active = (s.operators i).active

/-- Whatever is not among the parts is left alone. -/
structure Footprint (parts : List RegistryPart) (s s' : NodeOperatorsRegistry) : Prop where
  keys : .keys ∉ parts → SameKeys s s'
  vetted_le : .vetted ∉ parts → ∀ i, (s'.operators i).vetted ≤ (s.operators i).vetted
  stuckPenaltyStats : .penalties ∉ parts →
    ∀ i, (s'.operators i).stuckPenaltyStats = (s.operators i).stuckPenaltyStats
  nonce : .nonce ∉ parts → s'.keysOpIndex = s.keysOpIndex
  announced : .ready ∉ parts → s'.keysOpIndex = uncheckedAdd s.keysOpIndex 1 ∨ SameReady s s'

theorem Footprint.refl (parts : List RegistryPart) (s : NodeOperatorsRegistry) :
    Footprint parts s s where
  keys _ := ⟨rfl, fun _ => rfl⟩
  vetted_le _ _ := Nat.le_refl _
  stuckPenaltyStats _ _ := rfl
  nonce _ := rfl
  announced _ := .inr ⟨rfl, fun _ => rfl, fun _ => rfl, fun _ _ => rfl⟩

/-- Two changes of the deposit data may need more than one announcement. -/
theorem Footprint.trans (h : Footprint parts s s') (h' : Footprint parts s' s'')
    (hready : .ready ∈ parts) : Footprint parts s s'' where
  keys hkeys :=
    { signingKeys := (h'.keys hkeys).signingKeys.trans (h.keys hkeys).signingKeys
      total := fun i => ((h'.keys hkeys).total i).trans ((h.keys hkeys).total i) }
  vetted_le hvetted i := (h'.vetted_le hvetted i).trans (h.vetted_le hvetted i)
  stuckPenaltyStats hpenalties i :=
    (h'.stuckPenaltyStats hpenalties i).trans (h.stuckPenaltyStats hpenalties i)
  nonce hnonce := (h'.nonce hnonce).trans (h.nonce hnonce)
  announced hnot := absurd hready hnot

theorem Footprint.mono (h : Footprint parts s s') (hsub : parts ⊆ parts') :
    Footprint parts' s s' where
  keys hkeys := h.keys fun hmem => hkeys (hsub hmem)
  vetted_le hvetted := h.vetted_le fun hmem => hvetted (hsub hmem)
  stuckPenaltyStats hpenalties := h.stuckPenaltyStats fun hmem => hpenalties (hsub hmem)
  nonce hnonce := h.nonce fun hmem => hnonce (hsub hmem)
  announced hready := h.announced fun hmem => hready (hsub hmem)

theorem not_mem_ready {part : RegistryPart} (hne : part ≠ .ready) (hnot : part ∉ parts) :
    part ∉ .ready :: parts :=
  List.not_mem_cons_of_ne_of_not_mem hne hnot

/-- The change is announced. -/
theorem Footprint.increaseValidatorsKeysNonce (h : Footprint (.ready :: parts) s s')
    (hnonce : .nonce ∉ parts) :
    Footprint (.nonce :: parts) s s'.increaseValidatorsKeysNonce where
  keys hkeys := { h.keys (not_mem_ready (by decide) (List.not_mem_of_not_mem_cons hkeys)) with }
  vetted_le hvetted :=
    h.vetted_le (not_mem_ready (by decide) (List.not_mem_of_not_mem_cons hvetted))
  stuckPenaltyStats hpenalties :=
    h.stuckPenaltyStats (not_mem_ready (by decide) (List.not_mem_of_not_mem_cons hpenalties))
  nonce hnot := absurd List.mem_cons_self hnot
  announced _ := .inl (congrArg (uncheckedAdd · 1) (h.nonce (not_mem_ready (by decide) hnonce)))

/-- The operators and their keys are not touched. -/
theorem footprint_of_operators (hoperators : s'.operators = s.operators)
    (hkeys : s'.signingKeys = s.signingKeys) (hnonce : s'.keysOpIndex = s.keysOpIndex) :
    Footprint parts s s' where
  keys _ := ⟨hkeys, fun i => by rw [hoperators]⟩
  vetted_le _ i := by rw [hoperators]
  stuckPenaltyStats _ i := by rw [hoperators]
  nonce _ := hnonce
  announced _ := .inr ⟨hkeys, fun i => by rw [hoperators], fun i => by rw [hoperators],
    fun i _ => by rw [hoperators]⟩

/-- A fact about each operator, when one of them is replaced. -/
theorem forall_of_update {P : NodeOperator → NodeOperator → Prop}
    (hoperators : s'.operators = Function.update s.operators id op)
    (hop : P (s.operators id) op) (hother : ∀ i, P (s.operators i) (s.operators i)) (i : Nat) :
    P (s.operators i) (s'.operators i) := by
  rw [hoperators]
  rcases eq_or_ne i id with rfl | hne
  · rw [Function.update_self]
    exact hop
  · rw [Function.update_of_ne hne]
    exact hother i

/-- One operator is replaced, before the limits are applied or the change is announced. -/
theorem footprint_of_update (hoperators : s'.operators = Function.update s.operators id op)
    (hnonce : s'.keysOpIndex = s.keysOpIndex)
    (hkeys : .keys ∉ parts → s'.signingKeys = s.signingKeys ∧ op.total = (s.operators id).total)
    (hvetted : .vetted ∉ parts → op.vetted ≤ (s.operators id).vetted)
    (hpenalties : .penalties ∉ parts →
      op.stuckPenaltyStats = (s.operators id).stuckPenaltyStats)
    (hready : .ready ∈ parts) : Footprint parts s s' where
  keys hnot :=
    { signingKeys := (hkeys hnot).1
      total := forall_of_update (P := fun op op' => op'.total = op.total) hoperators (hkeys hnot).2
        fun _ => rfl }
  vetted_le hnot := forall_of_update (P := fun op op' => op'.vetted ≤ op.vetted) hoperators
    (hvetted hnot) fun _ => Nat.le_refl _
  stuckPenaltyStats hnot :=
    forall_of_update (P := fun op op' => op'.stuckPenaltyStats = op.stuckPenaltyStats) hoperators
      (hpenalties hnot) fun _ => rfl
  nonce _ := hnonce
  announced hnot := absurd hready hnot

/-- Nothing that is counted changes about the operator. -/
theorem footprint_of_sameStats (hoperators : s'.operators = Function.update s.operators id op)
    (hnonce : s'.keysOpIndex = s.keysOpIndex) (hkeys : s'.signingKeys = s.signingKeys)
    (hsigning : op.signingKeysStats = (s.operators id).signingKeysStats)
    (hpenalties : op.stuckPenaltyStats = (s.operators id).stuckPenaltyStats)
    (htargets : op.targetValidatorsStats = (s.operators id).targetValidatorsStats)
    (hactive : id < s.totalOperatorsCount → op.active = (s.operators id).active) :
    Footprint parts s s' := by
  have hsame : ∀ i, (s'.operators i).signingKeysStats = (s.operators i).signingKeysStats :=
    forall_of_update (P := fun op op' => op'.signingKeysStats = op.signingKeysStats) hoperators
      hsigning fun _ => rfl
  have htargets' : ∀ i,
      (s'.operators i).targetValidatorsStats = (s.operators i).targetValidatorsStats :=
    forall_of_update (P := fun op op' => op'.targetValidatorsStats = op.targetValidatorsStats)
      hoperators htargets fun _ => rfl
  refine { keys := fun _ => ⟨hkeys, fun i => ?_⟩, vetted_le := fun _ i => ?_,
           stuckPenaltyStats := fun _ => ?_, nonce := fun _ => hnonce,
           announced := fun _ => .inr ⟨hkeys, fun i => ?_, fun i => ?_, fun i hi => ?_⟩ }
  · rw [NodeOperator.total, NodeOperator.total, hsame]
  · rw [NodeOperator.vetted, NodeOperator.vetted, hsame]
  · exact forall_of_update (P := fun op op' => op'.stuckPenaltyStats = op.stuckPenaltyStats)
      hoperators hpenalties fun _ => rfl
  · rw [NodeOperator.deposited, NodeOperator.deposited, hsame]
  · rw [NodeOperator.maxValidators, NodeOperator.maxValidators, htargets']
  · rw [hoperators]
    rcases eq_or_ne i id with rfl | hne
    · rw [Function.update_self]
      exact hactive hi
    · rw [Function.update_of_ne hne]

/-- Applying the limits changes nothing but which keys are ready. -/
theorem LimitsApplied.footprint (h : LimitsApplied s s' id) (hready : .ready ∈ parts) :
    Footprint parts s s' := by
  obtain ⟨stats, summary, rfl, -⟩ := h.eq
  exact footprint_of_update rfl rfl (fun _ => ⟨rfl, rfl⟩) (fun _ => Nat.le_refl _) (fun _ => rfl)
    hready

end NodeOperatorsRegistry

end Catalist
