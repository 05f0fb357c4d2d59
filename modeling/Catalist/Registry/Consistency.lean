import Catalist.Registry.Steps

/-!
# The registry stays consistent

In every run the counters of each operator are in order, the stored maximum is the one that its
limits give, and the summary is the sum over the operators. So no call fails by an assertion, an
array access or the arithmetic of a packed counter.
-/

namespace Catalist

open Solidity Transition Finset

namespace NodeOperatorsRegistry

variable {s : NodeOperatorsRegistry} {getKeyOffset : Nat → Nat → BitVec 256}

/-- What holds of the registry between calls. -/
structure Consistent (s : NodeOperatorsRegistry) : Prop where
  exited_le_deposited : ∀ id, (s.operators id).exited ≤ (s.operators id).deposited
  deposited_le_vetted : ∀ id, (s.operators id).deposited ≤ (s.operators id).vetted
  vetted_le_total : ∀ id, (s.operators id).vetted ≤ (s.operators id).total
  exited_add_stuck_le :
    ∀ id, (s.operators id).exited + (s.operators id).stuck ≤ (s.operators id).deposited
  refunded_le : ∀ id, (s.operators id).refunded ≤ (s.operators id).deposited
  deposited_le_max : ∀ id, (s.operators id).deposited ≤ (s.operators id).maxValidators
  max_le_vetted : ∀ id, (s.operators id).maxValidators ≤ (s.operators id).vetted
  /-- Applying the limits again, at any time, changes nothing. -/
  limits_applied : ∀ env id, s.applyNodeOperatorLimits env id
    = .ok (s, (s.operators id).maxValidators, (s.operators id).maxValidators)
  vetted_of_inactive :
    ∀ id, (s.operators id).active = false → (s.operators id).vetted = (s.operators id).deposited
  summary_max : s.summarySigningKeysStats.get SUMMARY_MAX_VALIDATORS_COUNT_OFFSET
    = ∑ id ∈ range s.totalOperatorsCount, (s.operators id).maxValidators
  summary_exited : s.summarySigningKeysStats.get SUMMARY_EXITED_KEYS_COUNT_OFFSET
    = ∑ id ∈ range s.totalOperatorsCount, (s.operators id).exited
  summary_total : s.summarySigningKeysStats.get SUMMARY_TOTAL_KEYS_COUNT_OFFSET
    = ∑ id ∈ range s.totalOperatorsCount, (s.operators id).total
  summary_deposited : s.summarySigningKeysStats.get SUMMARY_DEPOSITED_KEYS_COUNT_OFFSET
    = ∑ id ∈ range s.totalOperatorsCount, (s.operators id).deposited
  /-- The arrays of the allocation are long enough. -/
  card_ready_le : #{id ∈ range s.totalOperatorsCount |
    (s.operators id).deposited < (s.operators id).maxValidators} ≤ s.activeOperatorsCount

theorem limits_applied_of_settled {env : RegistryEnv} {id : Nat}
    (h : (s.operators id).Settled) : s.applyNodeOperatorLimits env id
      = .ok (s, (s.operators id).maxValidators, (s.operators id).maxValidators) := by
  unfold applyNodeOperatorLimits
  rw [newMaxSigningKeysCount_eq, ← h]
  exact if_neg (not_not.mpr rfl)

theorem card_ready_le_of_invariant (h : Invariant s) :
    #{id ∈ range s.totalOperatorsCount |
      (s.operators id).deposited < (s.operators id).maxValidators} ≤ s.activeOperatorsCount := by
  rw [h.active, card_filter]
  refine sum_le_sum fun id _ => ?_
  split
  · next hlt =>
    have hactive := (h.wellFormed id).active_of_deposited_lt
      (Nat.lt_of_lt_of_le hlt (h.max_le_vetted id))
    rw [NodeOperator.activity, if_pos hactive]
  · exact Nat.zero_le _

theorem Balanced.consistent (h : Invariant s) : Consistent s where
  exited_le_deposited id := (h.wellFormed id).exited_le_deposited
  deposited_le_vetted id := (h.wellFormed id).deposited_le_vetted
  vetted_le_total id := (h.wellFormed id).vetted_le_total
  exited_add_stuck_le id := (h.wellFormed id).exited_add_stuck_le
  refunded_le id := (h.wellFormed id).refunded_le
  deposited_le_max := h.deposited_le_max
  max_le_vetted := h.max_le_vetted
  limits_applied _ id := limits_applied_of_settled (h.settled id)
  vetted_of_inactive id := (h.wellFormed id).vetted_of_inactive
  summary_max := h.max
  summary_exited := h.exited
  summary_total := h.total
  summary_deposited := h.deposited
  card_ready_le := card_ready_le_of_invariant h

/--
**The registry is consistent in every run**, and no call fails internally as long as the numbers
that it stores fit in their 64 bits.
-/
theorem registry_consistent (h : Reachable Initial (Step getKeyOffset) s) :
    Consistent s ∧
      ∀ (env : RegistryEnv) (action : RegistryAction) (r : Revert RegistryError),
        action.Fits env s → action.run getKeyOffset env s = .error r → ¬ Internal r := by
  have hinvariant := invariant_of_reachable h
  refine ⟨hinvariant.consistent, fun env action r hfits hrun => ?_⟩
  exact (ensures_run hinvariant).of_error hrun hfits

theorem registry_consistent_two_operators : Consistent exampleRegistry ∧
    ∀ (env : RegistryEnv) (action : RegistryAction) (r : Revert RegistryError),
      action.Fits env exampleRegistry →
        action.run exampleKeyOffset env exampleRegistry = .error r → ¬ Internal r :=
  registry_consistent
    (reachable_runAll (.init initial_exampleInitialRegistry) runAll_exampleRegistry)

end NodeOperatorsRegistry

end Catalist
