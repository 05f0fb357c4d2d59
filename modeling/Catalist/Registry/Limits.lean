import Catalist.Registry.Effects

/-!
# What applying the limits changes

In a state in which the invariant does not hold, applying the limits may fail; if it goes through, it
changes only the maximum of the operator and the summary.
-/

namespace Catalist

open Solidity

namespace NodeOperatorsRegistry

variable {s s' : NodeOperatorsRegistry} {env : RegistryEnv} {id : Nat}

theorem ensures_check {c : Prop} [Decidable c] {e : RegistryError} :
    Ensures (fun _ => True) (require c e) fun _ => True :=
  (ensures_require trivial).mono fun _ _ => trivial

/-- Nothing is known about the result. -/
theorem ensures_any {α : Type} (x : Call RegistryError α) :
    Ensures (fun _ => True) x fun _ => True :=
  ⟨fun _ => trivial, fun _ => trivial⟩

/-- What applying the limits of an operator changes about the operators. -/
structure OnlyTargets (s s' : NodeOperatorsRegistry) (id : Nat) : Prop where
  operators : ∃ stats,
    (∀ m, m ≠ MAX_VALIDATORS_COUNT_OFFSET →
      stats.get m = (s.operators id).targetValidatorsStats.get m) ∧
    s'.operators
      = Function.update s.operators id { s.operators id with targetValidatorsStats := stats }
  keysOpIndex : s'.keysOpIndex = s.keysOpIndex
  signingKeys : s'.signingKeys = s.signingKeys

theorem onlyTargets_updateSummaryMaxValidatorsCount :
    Ensures (fun _ => True) (s.updateSummaryMaxValidatorsCount env id)
      fun s' => OnlyTargets s s' id := by
  have hlimits : Ensures (fun _ => True) (s.applyNodeOperatorLimits env id)
      fun r => OnlyTargets s r.1 id := by
    unfold applyNodeOperatorLimits
    simp only
    split
    · exact (ensures_set (.inr trivial)).bind fun stats hstats =>
        ensures_pure ⟨⟨stats, hstats.get_of_ne, rfl⟩, rfl, rfl⟩
    · refine ensures_pure
        ⟨⟨(s.operators id).targetValidatorsStats, fun _ _ => rfl, ?_⟩, rfl, rfl⟩
      exact (Function.update_eq_self id s.operators).symm
  refine hlimits.bind ?_
  rintro ⟨s₁, oldMax, newMax⟩ hs
  show Ensures _ (if newMax = oldMax then _ else _) _
  split
  · exact ensures_pure hs
  · exact (ensures_any _).bind fun summary _ => ensures_pure { hs with }

theorem OnlyTargets.signingKeysStats (h : OnlyTargets s s' id) (i : Nat) :
    (s'.operators i).signingKeysStats = (s.operators i).signingKeysStats := by
  obtain ⟨stats, -, hoperators⟩ := h.operators
  exact forall_of_update (P := fun op op' => op'.signingKeysStats = op.signingKeysStats) hoperators
    rfl (fun _ => rfl) i

theorem OnlyTargets.stuckPenaltyStats (h : OnlyTargets s s' id) (i : Nat) :
    (s'.operators i).stuckPenaltyStats = (s.operators i).stuckPenaltyStats := by
  obtain ⟨stats, -, hoperators⟩ := h.operators
  exact forall_of_update (P := fun op op' => op'.stuckPenaltyStats = op.stuckPenaltyStats)
    hoperators rfl (fun _ => rfl) i

theorem OnlyTargets.sameKeys (h : OnlyTargets s s' id) : SameKeys s s' where
  signingKeys := h.signingKeys
  total i := congrArg (Packed.get · TOTAL_KEYS_COUNT_OFFSET) (h.signingKeysStats i)

theorem OnlyTargets.vetted (h : OnlyTargets s s' id) (i : Nat) :
    (s'.operators i).vetted = (s.operators i).vetted :=
  congrArg (Packed.get · TOTAL_VETTED_KEYS_COUNT_OFFSET) (h.signingKeysStats i)

end NodeOperatorsRegistry

end Catalist
