import Catalist.Lib.Outcome
import Catalist.Lib.Sums
import Catalist.Registry.Base

/-!
# The invariant of the registry

What holds of the counters of each operator, and how the summary follows them. Most functions
change the counters of one operator and then apply its limits: `Counted` is the part of the
invariant that holds in between, when the maximum of that operator is not up to date, and
`ensures_updateSummaryMaxValidatorsCount` restores the rest.

Two functions adjust the summary only after their loop. `Counted` has the amounts by which the
summary lags behind as arguments: the keys that were loaded and the keys that were trimmed.
-/

namespace Catalist

open Solidity Finset

/-! ## The counters of an operator -/

namespace NodeOperator

open NodeOperatorsRegistry

section counters

variable (op : NodeOperator)

def vetted : Nat := op.signingKeysStats.get TOTAL_VETTED_KEYS_COUNT_OFFSET

def exited : Nat := op.signingKeysStats.get TOTAL_EXITED_KEYS_COUNT_OFFSET

def total : Nat := op.signingKeysStats.get TOTAL_KEYS_COUNT_OFFSET

def deposited : Nat := op.signingKeysStats.get TOTAL_DEPOSITED_KEYS_COUNT_OFFSET

def stuck : Nat := op.stuckPenaltyStats.get STUCK_VALIDATORS_COUNT_OFFSET

def refunded : Nat := op.stuckPenaltyStats.get REFUNDED_VALIDATORS_COUNT_OFFSET

def penaltyEnd : Nat := op.stuckPenaltyStats.get STUCK_PENALTY_END_TIMESTAMP_OFFSET

def targetActive : Nat := op.targetValidatorsStats.get IS_TARGET_LIMIT_ACTIVE_OFFSET

def target : Nat := op.targetValidatorsStats.get TARGET_VALIDATORS_COUNT_OFFSET

def maxValidators : Nat := op.targetValidatorsStats.get MAX_VALIDATORS_COUNT_OFFSET

/-- One for an active operator. -/
def activity : Nat := if op.active then 1 else 0

/-- The number of keys that the operator's limits admit. -/
def limit : Nat :=
  if op.stuck ≤ op.refunded ∧ op.penaltyEnd = 0 then
    if op.targetActive ≠ 0 then max op.deposited (min op.vetted (op.exited + op.target))
    else op.vetted
  else op.deposited

/-- What the counters satisfy, also while the maximum is not up to date. -/
structure WellFormed : Prop where
  exited_add_stuck_le : op.exited + op.stuck ≤ op.deposited
  refunded_le : op.refunded ≤ op.deposited
  deposited_le_vetted : op.deposited ≤ op.vetted
  vetted_le_total : op.vetted ≤ op.total
  vetted_of_inactive : op.active = false → op.vetted = op.deposited

/-- The maximum is up to date. -/
def Settled : Prop := op.maxValidators = op.limit

/-- An operator that was never added. -/
structure Blank : Prop where
  active : op.active = false
  signingKeysStats : op.signingKeysStats = ⟨0⟩
  stuckPenaltyStats : op.stuckPenaltyStats = ⟨0⟩
  targetValidatorsStats : op.targetValidatorsStats = ⟨0⟩

end counters

variable {op : NodeOperator}

theorem WellFormed.deposited_le_limit (h : op.WellFormed) : op.deposited ≤ op.limit := by
  have hvetted := h.deposited_le_vetted
  unfold limit
  split
  · split
    · exact Nat.le_max_left _ _
    · exact hvetted
  · exact Nat.le_refl _

theorem WellFormed.limit_le_vetted (h : op.WellFormed) : op.limit ≤ op.vetted := by
  have hvetted := h.deposited_le_vetted
  unfold limit
  split
  · split
    · exact Nat.max_le.mpr ⟨hvetted, Nat.min_le_left _ _⟩
    · exact Nat.le_refl _
  · exact hvetted

/-- The limit only depends on these counters. -/
theorem limit_congr {op' : NodeOperator} (hvetted : op'.vetted = op.vetted)
    (hexited : op'.exited = op.exited) (hdeposited : op'.deposited = op.deposited)
    (hstuck : op'.stuck = op.stuck) (hrefunded : op'.refunded = op.refunded)
    (hpenaltyEnd : op'.penaltyEnd = op.penaltyEnd)
    (htargetActive : op'.targetActive = op.targetActive) (htarget : op'.target = op.target) :
    op'.limit = op.limit := by
  simp only [limit, hvetted, hexited, hdeposited, hstuck, hrefunded, hpenaltyEnd, htargetActive,
    htarget]

theorem WellFormed.exited_le_deposited (h : op.WellFormed) : op.exited ≤ op.deposited :=
  (Nat.le_add_right _ _).trans h.exited_add_stuck_le

theorem WellFormed.stuck_le_deposited (h : op.WellFormed) : op.stuck ≤ op.deposited :=
  (Nat.le_add_left _ _).trans h.exited_add_stuck_le

theorem WellFormed.deposited_le_total (h : op.WellFormed) : op.deposited ≤ op.total :=
  h.deposited_le_vetted.trans h.vetted_le_total

/-- Only an active operator can be given keys. -/
theorem WellFormed.active_of_deposited_lt (h : op.WellFormed) (hlt : op.deposited < op.vetted) :
    op.active = true := by
  cases hactive : op.active with
  | true => rfl
  | false =>
    have hvetted := h.vetted_of_inactive hactive
    omega

theorem get_zero (n : Fin 4) : (⟨0⟩ : Packed).get n = 0 := by
  simp [Packed.get]

section blank

variable (h : op.Blank)
include h

theorem Blank.vetted : op.vetted = 0 := by rw [NodeOperator.vetted, h.signingKeysStats, get_zero]

theorem Blank.exited : op.exited = 0 := by rw [NodeOperator.exited, h.signingKeysStats, get_zero]

theorem Blank.total : op.total = 0 := by rw [NodeOperator.total, h.signingKeysStats, get_zero]

theorem Blank.deposited : op.deposited = 0 := by
  rw [NodeOperator.deposited, h.signingKeysStats, get_zero]

theorem Blank.stuck : op.stuck = 0 := by rw [NodeOperator.stuck, h.stuckPenaltyStats, get_zero]

theorem Blank.refunded : op.refunded = 0 := by
  rw [NodeOperator.refunded, h.stuckPenaltyStats, get_zero]

theorem Blank.penaltyEnd : op.penaltyEnd = 0 := by
  rw [NodeOperator.penaltyEnd, h.stuckPenaltyStats, get_zero]

theorem Blank.maxValidators : op.maxValidators = 0 := by
  rw [NodeOperator.maxValidators, h.targetValidatorsStats, get_zero]

theorem Blank.wellFormed : op.WellFormed where
  exited_add_stuck_le := by rw [h.exited, h.stuck, h.deposited]
  refunded_le := by rw [h.refunded, h.deposited]
  deposited_le_vetted := by rw [h.deposited, h.vetted]
  vetted_le_total := by rw [h.vetted, h.total]
  vetted_of_inactive _ := by rw [h.vetted, h.deposited]

theorem Blank.settled : op.Settled := by
  have hle := h.wellFormed.limit_le_vetted
  rw [h.vetted] at hle
  rw [Settled, h.maxValidators, Nat.le_zero.mp hle]

end blank

end NodeOperator

namespace NodeOperatorsRegistry

variable {s s' : NodeOperatorsRegistry} {env : RegistryEnv} {id : Nat} {op : NodeOperator}
  {loaded loaded' trimmed trimmed' : Nat} {allowed : Revert RegistryError → Prop}

/-- The recomputed maximum does not depend on the time: it is only positive that matters. -/
theorem newMaxSigningKeysCount_eq : s.newMaxSigningKeysCount env id = (s.operators id).limit := by
  have htime := env.timestamp_pos
  have hsum : uncheckedAdd (s.operators id).exited (s.operators id).target
      = (s.operators id).exited + (s.operators id).target := by
    refine uncheckedAdd_of_lt ?_
    have hexited : (s.operators id).exited < 2 ^ 64 := Packed.get_lt
    have htarget : (s.operators id).target < 2 ^ 64 := Packed.get_lt
    omega
  have hcleared : s.isOperatorPenaltyCleared env id = true ↔
      (s.operators id).stuck ≤ (s.operators id).refunded ∧ (s.operators id).penaltyEnd = 0 := by
    simp only [isOperatorPenaltyCleared, isOperatorPenalizedInternal, NodeOperator.stuck,
      NodeOperator.refunded, NodeOperator.penaltyEnd, decide_eq_true_eq, decide_eq_false_iff_not]
    omega
  unfold newMaxSigningKeysCount NodeOperator.limit
  by_cases h : s.isOperatorPenaltyCleared env id = true
  · rw [if_neg (by simp [h]), if_pos (hcleared.mp h)]
    show (if (s.operators id).targetActive ≠ 0 then
      max (s.operators id).deposited (min (s.operators id).vetted
        (uncheckedAdd (s.operators id).exited (s.operators id).target))
      else (s.operators id).vetted) = _
    rw [hsum]
  · rw [if_pos (Bool.eq_false_iff.mpr h), if_neg (mt hcleared.mpr h)]
    rfl

/-! ## The invariant -/

/-- The sum of a counter over all operators. -/
def sumOver (s : NodeOperatorsRegistry) (f : NodeOperator → Nat) : Nat :=
  ∑ id ∈ range s.totalOperatorsCount, f (s.operators id)

/-- The counters add up, with `loaded` and `trimmed` keys missing in the summary. -/
structure Counted (s : NodeOperatorsRegistry) (loaded trimmed : Nat) : Prop where
  wellFormed : ∀ id, (s.operators id).WellFormed
  blank : ∀ id, s.totalOperatorsCount ≤ id → (s.operators id).Blank
  max : s.summarySigningKeysStats.get SUMMARY_MAX_VALIDATORS_COUNT_OFFSET
    = s.sumOver NodeOperator.maxValidators
  exited : s.summarySigningKeysStats.get SUMMARY_EXITED_KEYS_COUNT_OFFSET
    = s.sumOver NodeOperator.exited
  total : s.summarySigningKeysStats.get SUMMARY_TOTAL_KEYS_COUNT_OFFSET
    = s.sumOver NodeOperator.total + trimmed
  deposited : s.summarySigningKeysStats.get SUMMARY_DEPOSITED_KEYS_COUNT_OFFSET + loaded
    = s.sumOver NodeOperator.deposited
  active : s.activeOperatorsCount = s.sumOver NodeOperator.activity
  totalOperatorsCount_le : s.totalOperatorsCount ≤ MAX_NODE_OPERATORS_COUNT
  stuckPenaltyDelay_le : s.stuckPenaltyDelay ≤ MAX_STUCK_PENALTY_DELAY

/-- The counters add up, and every maximum is up to date. -/
structure Balanced (s : NodeOperatorsRegistry) (loaded trimmed : Nat) : Prop
    extends Counted s loaded trimmed where
  settled : ∀ id, (s.operators id).Settled

/-- The invariant of the registry, between calls. -/
abbrev Invariant (s : NodeOperatorsRegistry) : Prop := Balanced s 0 0

theorem sumOver_le {f g : NodeOperator → Nat} (h : ∀ id, f (s.operators id) ≤ g (s.operators id)) :
    s.sumOver f ≤ s.sumOver g :=
  sum_le_sum fun id _ => h id

theorem le_sumOver {f : NodeOperator → Nat} (hid : id < s.totalOperatorsCount) :
    f (s.operators id) ≤ s.sumOver f :=
  Ledger.le_sum (f := fun id => f (s.operators id)) (mem_range.mpr hid)

/-- The summary has room for the sum of any counter that is at most the total. -/
theorem Counted.sumOver_le_max (h : Counted s loaded trimmed) {f : NodeOperator → Nat}
    (hf : ∀ id, f (s.operators id) ≤ (s.operators id).total) : s.sumOver f ≤ UINT64_MAX := by
  have hsum := sumOver_le hf
  have htotal := h.total
  have hbound : s.summarySigningKeysStats.get SUMMARY_TOTAL_KEYS_COUNT_OFFSET ≤ UINT64_MAX :=
    Packed.get_le
  omega

/-- The summary has room when one operator's share in a counter changes. -/
theorem Counted.sumOver_add_le (h : Counted s loaded trimmed) {f : NodeOperator → Nat} {x : Nat}
    (hid : id < s.totalOperatorsCount)
    (hf : ∀ i, i ≠ id → f (s.operators i) ≤ (s.operators i).total)
    (hx : x ≤ (s.operators id).total) :
    s.sumOver f + x ≤ UINT64_MAX + f (s.operators id) := by
  have hsum := Ledger.sum_update_add (f := fun i => f (s.operators i)) x (mem_range.mpr hid)
  have hle : ∑ i ∈ range s.totalOperatorsCount,
      Function.update (fun i => f (s.operators i)) id x i ≤ s.sumOver NodeOperator.total := by
    refine sum_le_sum fun i _ => ?_
    rcases eq_or_ne i id with rfl | hne
    · rw [Function.update_self]
      exact hx
    · rw [Function.update_of_ne hne]
      exact hf i hne
  have htotal : s.sumOver NodeOperator.total ≤ UINT64_MAX := h.sumOver_le_max fun _ => Nat.le_refl _
  unfold sumOver at *
  omega

theorem Balanced.deposited_le_max (h : Balanced s loaded trimmed) (id : Nat) :
    (s.operators id).deposited ≤ (s.operators id).maxValidators := by
  rw [h.settled id]
  exact (h.wellFormed id).deposited_le_limit

theorem Balanced.max_le_vetted (h : Balanced s loaded trimmed) (id : Nat) :
    (s.operators id).maxValidators ≤ (s.operators id).vetted := by
  rw [h.settled id]
  exact (h.wellFormed id).limit_le_vetted

/-! ## Changing one operator -/

/-- The operator `id` is replaced, and the summary follows. -/
structure Edited (s s' : NodeOperatorsRegistry) (id : Nat) (op : NodeOperator)
    (loaded trimmed loaded' trimmed' : Nat) : Prop where
  operators : s'.operators = Function.update s.operators id op
  totalOperatorsCount : s'.totalOperatorsCount = s.totalOperatorsCount
  stuckPenaltyDelay : s'.stuckPenaltyDelay = s.stuckPenaltyDelay
  wellFormed : op.WellFormed
  max : s'.summarySigningKeysStats.get SUMMARY_MAX_VALIDATORS_COUNT_OFFSET
      + (s.operators id).maxValidators
    = s.summarySigningKeysStats.get SUMMARY_MAX_VALIDATORS_COUNT_OFFSET + op.maxValidators
  exited : s'.summarySigningKeysStats.get SUMMARY_EXITED_KEYS_COUNT_OFFSET
      + (s.operators id).exited
    = s.summarySigningKeysStats.get SUMMARY_EXITED_KEYS_COUNT_OFFSET + op.exited
  total : s'.summarySigningKeysStats.get SUMMARY_TOTAL_KEYS_COUNT_OFFSET
      + (s.operators id).total + trimmed
    = s.summarySigningKeysStats.get SUMMARY_TOTAL_KEYS_COUNT_OFFSET + op.total + trimmed'
  deposited : s'.summarySigningKeysStats.get SUMMARY_DEPOSITED_KEYS_COUNT_OFFSET + loaded'
      + (s.operators id).deposited
    = s.summarySigningKeysStats.get SUMMARY_DEPOSITED_KEYS_COUNT_OFFSET + loaded + op.deposited
  active : s'.activeOperatorsCount + (s.operators id).activity
    = s.activeOperatorsCount + op.activity

theorem Edited.sumOver (he : Edited s s' id op loaded trimmed loaded' trimmed')
    (hid : id < s.totalOperatorsCount) (f : NodeOperator → Nat) :
    s'.sumOver f + f (s.operators id) = s.sumOver f + f op := by
  have hsum := Ledger.sum_update_add (f := fun i => f (s.operators i)) (f op) (mem_range.mpr hid)
  have hpoint : s'.sumOver f
      = ∑ i ∈ range s.totalOperatorsCount,
        Function.update (fun i => f (s.operators i)) id (f op) i := by
    rw [NodeOperatorsRegistry.sumOver, he.totalOperatorsCount, he.operators]
    refine sum_congr rfl fun i _ => ?_
    rcases eq_or_ne i id with rfl | hne
    · rw [Function.update_self, Function.update_self]
    · rw [Function.update_of_ne hne, Function.update_of_ne hne]
  rw [hpoint]
  exact hsum

theorem Counted.edited (h : Counted s loaded trimmed) (hid : id < s.totalOperatorsCount)
    (he : Edited s s' id op loaded trimmed loaded' trimmed') : Counted s' loaded' trimmed' where
  wellFormed i := by
    rw [he.operators]
    rcases eq_or_ne i id with rfl | hne
    · rw [Function.update_self]
      exact he.wellFormed
    · rw [Function.update_of_ne hne]
      exact h.wellFormed i
  blank i hi := by
    rw [he.totalOperatorsCount] at hi
    rw [he.operators, Function.update_of_ne (by omega)]
    exact h.blank i hi
  max := by
    have hsum := he.sumOver hid NodeOperator.maxValidators
    have hbefore := h.max
    have hedit := he.max
    omega
  exited := by
    have hsum := he.sumOver hid NodeOperator.exited
    have hbefore := h.exited
    have hedit := he.exited
    omega
  total := by
    have hsum := he.sumOver hid NodeOperator.total
    have hbefore := h.total
    have hedit := he.total
    omega
  deposited := by
    have hsum := he.sumOver hid NodeOperator.deposited
    have hbefore := h.deposited
    have hedit := he.deposited
    omega
  active := by
    have hsum := he.sumOver hid NodeOperator.activity
    have hbefore := h.active
    have hedit := he.active
    omega
  totalOperatorsCount_le := he.totalOperatorsCount ▸ h.totalOperatorsCount_le
  stuckPenaltyDelay_le := he.stuckPenaltyDelay ▸ h.stuckPenaltyDelay_le

theorem Balanced.settled_of_ne (h : Balanced s loaded trimmed)
    (he : Edited s s' id op loaded trimmed loaded' trimmed') :
    ∀ i, i ≠ id → (s'.operators i).Settled := by
  intro i hne
  rw [he.operators, Function.update_of_ne hne]
  exact h.settled i

/-- Nothing is left to settle if the new operator's maximum is up to date. -/
theorem Balanced.edited (h : Balanced s loaded trimmed) (hid : id < s.totalOperatorsCount)
    (he : Edited s s' id op loaded trimmed loaded' trimmed') (hop : op.Settled) :
    Balanced s' loaded' trimmed' where
  toCounted := h.toCounted.edited hid he
  settled i := by
    rcases eq_or_ne i id with rfl | hne
    · rw [he.operators, Function.update_self]
      exact hop
    · exact h.settled_of_ne he i hne

/-! ## The packed counters -/

theorem ensures_set {p : Packed} {n : Fin 4} {x : Nat}
    (hx : x ≤ UINT64_MAX ∨ allowed (.error (.packed .packedOverflow))) :
    Ensures allowed (within .packed (p.set n x)) fun p' => Packed.Updated p p' n x := by
  refine ⟨fun heq => Packed.updated_of_set (within_eq_ok.mp heq), fun heq => ?_⟩
  by_cases hle : x ≤ UINT64_MAX
  · obtain ⟨p', hset⟩ : ∃ p', p.set n x = .ok p' := Packed.set_eq_ok_iff.mpr hle
    rw [hset] at heq
    cases heq
  · unfold Packed.set require at heq
    rw [if_neg hle] at heq
    cases heq
    exact hx.resolve_left hle

/-- A counter is lowered to a limit, if it is above; what it was fits, and so does the limit. -/
theorem ensures_lower {p : Packed} {n : Fin 4} {x : Nat} :
    Ensures allowed (within .packed (if x < p.get n then p.set n x else return p))
      fun p' => Packed.Updated p p' n (min (p.get n) x) := by
  by_cases hlt : x < p.get n
  · rw [if_pos hlt, Nat.min_eq_right hlt.le]
    exact ensures_set (.inl (hlt.le.trans Packed.get_le))
  · rw [if_neg hlt, Nat.min_eq_left (Nat.le_of_not_lt hlt)]
    exact ensures_ok ⟨rfl, fun _ _ => rfl⟩

/-- Adding to a counter that has room, or that may run out of it. -/
theorem ensures_add {p : Packed} {n : Fin 4} {x : Nat}
    (hx : p.get n + x ≤ UINT64_MAX ∨ ∀ e, allowed (.error (.packed e))) :
    Ensures allowed (within .packed (p.add n x)) fun p' => Packed.Updated p p' n (p.get n + x) := by
  rcases hx with hx | hx
  · obtain ⟨p', hadd, hupdated⟩ := Packed.add_of_le hx
    rw [hadd]
    exact ensures_ok hupdated
  · refine ⟨fun heq => Packed.updated_of_add (within_eq_ok.mp heq), fun heq => ?_⟩
    unfold Packed.add Packed.set require at heq
    split at heq
    · simp only [ok_bind] at heq
      split at heq
      · cases heq
      · cases heq
        exact hx _
    · cases heq
      exact hx _

theorem ensures_sub {p : Packed} {n : Fin 4} {x : Nat} (hx : x ≤ p.get n) :
    Ensures allowed (within .packed (p.sub n x)) fun p' => Packed.Updated p p' n (p.get n - x) := by
  obtain ⟨p', hsub, hupdated⟩ := Packed.sub_of_le hx
  rw [hsub]
  exact ensures_ok hupdated

theorem ensures_safeSub {a b : Nat} (h : b ≤ a) :
    Ensures allowed (safeSub a b) fun c => c = a - b := by
  rw [safeSub, require_of h, ok_bind]
  exact ensures_pure rfl

/-- A summary counter goes from one share in it to another. -/
theorem ensures_updateSummary {n : Fin 4} {x y : Nat}
    (hx : x ≤ s.summarySigningKeysStats.get n)
    (hy : s.summarySigningKeysStats.get n + y ≤ UINT64_MAX + x) :
    Ensures allowed (s.updateSummary n x y) fun p =>
      Packed.Updated s.summarySigningKeysStats p n (s.summarySigningKeysStats.get n - x + y) := by
  unfold updateSummary absDiff
  split
  · next hlt =>
    rw [show s.summarySigningKeysStats.get n - x + y
      = s.summarySigningKeysStats.get n + (y - x) by omega]
    exact ensures_add (.inl (by omega))
  · next hle =>
    rw [show s.summarySigningKeysStats.get n - x + y
      = s.summarySigningKeysStats.get n - (x - y) by omega]
    exact ensures_sub (by omega)

/-! ## Applying the limits -/

/-- The maximum of the operator is recomputed, and nothing else about it changes. -/
structure LimitsApplied (s s' : NodeOperatorsRegistry) (id : Nat) : Prop where
  eq : ∃ stats summary,
    s' = (s.saveOperatorTargetValidatorsStats id stats).saveSummarySigningKeysStats summary ∧
    Packed.Updated (s.operators id).targetValidatorsStats stats MAX_VALIDATORS_COUNT_OFFSET
      (s.operators id).limit

theorem saveOperatorTargetValidatorsStats_self :
    s.saveOperatorTargetValidatorsStats id (s.operators id).targetValidatorsStats = s := by
  unfold saveOperatorTargetValidatorsStats
  rw [Function.update_eq_self]

theorem ensures_applyNodeOperatorLimits (hlimit : (s.operators id).limit ≤ UINT64_MAX) :
    Ensures allowed (s.applyNodeOperatorLimits env id) fun r =>
      ∃ stats, r = (s.saveOperatorTargetValidatorsStats id stats,
          (s.operators id).maxValidators, (s.operators id).limit) ∧
        Packed.Updated (s.operators id).targetValidatorsStats stats MAX_VALIDATORS_COUNT_OFFSET
          (s.operators id).limit := by
  unfold applyNodeOperatorLimits
  rw [newMaxSigningKeysCount_eq]
  simp only
  split
  · refine (ensures_set (.inl hlimit)).bind fun stats hstats => ensures_pure ?_
    exact ⟨stats, rfl, hstats⟩
  · next heq =>
    refine ensures_pure ⟨(s.operators id).targetValidatorsStats, ?_, not_not.mp heq, fun _ _ => rfl⟩
    rw [saveOperatorTargetValidatorsStats_self]
    rfl

/-- The operator with its maximum up to date. -/
theorem edited_of_limits {stats summary : Packed} (h : Counted s loaded trimmed)
    (hstats : Packed.Updated (s.operators id).targetValidatorsStats stats
      MAX_VALIDATORS_COUNT_OFFSET (s.operators id).limit)
    (hsummary : Packed.Updated s.summarySigningKeysStats summary
      SUMMARY_MAX_VALIDATORS_COUNT_OFFSET
      (s.summarySigningKeysStats.get SUMMARY_MAX_VALIDATORS_COUNT_OFFSET
        - (s.operators id).maxValidators + (s.operators id).limit))
    (hle : (s.operators id).maxValidators
      ≤ s.summarySigningKeysStats.get SUMMARY_MAX_VALIDATORS_COUNT_OFFSET) :
    Edited s ((s.saveOperatorTargetValidatorsStats id stats).saveSummarySigningKeysStats summary)
      id { s.operators id with targetValidatorsStats := stats } loaded trimmed loaded trimmed where
  operators := rfl
  totalOperatorsCount := rfl
  stuckPenaltyDelay := rfl
  wellFormed := { h.wellFormed id with }
  max := by
    show summary.get _ + _ = _ + stats.get _
    rw [hstats.get, hsummary.get]
    omega
  exited := by
    show summary.get _ + _ = _
    rw [hsummary.get_of_ne _ (by decide)]
    rfl
  total := by
    show summary.get _ + _ + _ = _
    rw [hsummary.get_of_ne _ (by decide)]
    rfl
  deposited := by
    show summary.get _ + _ + _ = _
    rw [hsummary.get_of_ne _ (by decide)]
    rfl
  active := rfl

theorem settled_of_limits {stats : Packed}
    (hstats : Packed.Updated (s.operators id).targetValidatorsStats stats
      MAX_VALIDATORS_COUNT_OFFSET (s.operators id).limit) :
    NodeOperator.Settled { s.operators id with targetValidatorsStats := stats } := by
  show stats.get _ = _
  rw [hstats.get]
  refine Eq.symm (NodeOperator.limit_congr rfl rfl rfl rfl rfl rfl ?_ ?_)
  · exact hstats.get_of_ne IS_TARGET_LIMIT_ACTIVE_OFFSET (by decide)
  · exact hstats.get_of_ne TARGET_VALIDATORS_COUNT_OFFSET (by decide)

theorem balanced_of_limits {stats summary : Packed} (h : Counted s loaded trimmed)
    (hid : id < s.totalOperatorsCount) (hrest : ∀ i, i ≠ id → (s.operators i).Settled)
    (hstats : Packed.Updated (s.operators id).targetValidatorsStats stats
      MAX_VALIDATORS_COUNT_OFFSET (s.operators id).limit)
    (hsummary : Packed.Updated s.summarySigningKeysStats summary
      SUMMARY_MAX_VALIDATORS_COUNT_OFFSET
      (s.summarySigningKeysStats.get SUMMARY_MAX_VALIDATORS_COUNT_OFFSET
        - (s.operators id).maxValidators + (s.operators id).limit))
    (hle : (s.operators id).maxValidators
      ≤ s.summarySigningKeysStats.get SUMMARY_MAX_VALIDATORS_COUNT_OFFSET) :
    Balanced ((s.saveOperatorTargetValidatorsStats id stats).saveSummarySigningKeysStats summary)
        loaded trimmed ∧
      LimitsApplied s
        ((s.saveOperatorTargetValidatorsStats id stats).saveSummarySigningKeysStats summary) id := by
  have he := edited_of_limits h hstats hsummary hle
  refine ⟨⟨h.edited hid he, fun i => ?_⟩, stats, summary, rfl, hstats⟩
  rcases eq_or_ne i id with rfl | hne
  · rw [he.operators, Function.update_self]
    exact settled_of_limits hstats
  · rw [he.operators, Function.update_of_ne hne]
    exact hrest i hne

/--
**Applying the limits never fails and restores the invariant**, when it holds but for the maximum
of the operator.
-/
theorem ensures_updateSummaryMaxValidatorsCount (h : Counted s loaded trimmed)
    (hid : id < s.totalOperatorsCount) (hrest : ∀ i, i ≠ id → (s.operators i).Settled) :
    Ensures allowed (s.updateSummaryMaxValidatorsCount env id) fun s' =>
      Balanced s' loaded trimmed ∧ LimitsApplied s s' id := by
  have hlimit : (s.operators id).limit ≤ (s.operators id).vetted := (h.wellFormed id).limit_le_vetted
  have hold : (s.operators id).maxValidators
      ≤ s.summarySigningKeysStats.get SUMMARY_MAX_VALIDATORS_COUNT_OFFSET := by
    rw [h.max]
    exact le_sumOver hid
  have hroom : s.summarySigningKeysStats.get SUMMARY_MAX_VALIDATORS_COUNT_OFFSET
      + (s.operators id).limit ≤ UINT64_MAX + (s.operators id).maxValidators := by
    rw [h.max]
    refine h.sumOver_add_le hid (fun i hne => ?_) (hlimit.trans (h.wellFormed id).vetted_le_total)
    rw [hrest i hne]
    exact (h.wellFormed i).limit_le_vetted.trans (h.wellFormed i).vetted_le_total
  refine (ensures_applyNodeOperatorLimits (hlimit.trans Packed.get_le)).bind ?_
  rintro _ ⟨stats, rfl, hstats⟩
  simp only
  split
  · next heq =>
    have hsummary : Packed.Updated s.summarySigningKeysStats s.summarySigningKeysStats
        SUMMARY_MAX_VALIDATORS_COUNT_OFFSET
        (s.summarySigningKeysStats.get SUMMARY_MAX_VALIDATORS_COUNT_OFFSET
          - (s.operators id).maxValidators + (s.operators id).limit) :=
      ⟨by omega, fun _ _ => rfl⟩
    exact ensures_pure (balanced_of_limits h hid hrest hstats hsummary hold)
  · next hne =>
    refine (ensures_updateSummary hold hroom).bind fun summary hsummary => ensures_pure ?_
    exact balanced_of_limits h hid hrest hstats hsummary hold

/-! ## What is left alone -/

section limits

variable (h : LimitsApplied s s' id)
include h

theorem LimitsApplied.totalOperatorsCount : s'.totalOperatorsCount = s.totalOperatorsCount := by
  obtain ⟨stats, summary, rfl, -⟩ := h.eq
  rfl

theorem LimitsApplied.stuckPenaltyDelay : s'.stuckPenaltyDelay = s.stuckPenaltyDelay := by
  obtain ⟨stats, summary, rfl, -⟩ := h.eq
  rfl

theorem LimitsApplied.signingKeys : s'.signingKeys = s.signingKeys := by
  obtain ⟨stats, summary, rfl, -⟩ := h.eq
  rfl

theorem LimitsApplied.operators_of_ne {i : Nat} (hne : i ≠ id) :
    s'.operators i = s.operators i := by
  obtain ⟨stats, summary, rfl, -⟩ := h.eq
  exact Function.update_of_ne hne _ _

theorem LimitsApplied.signingKeysStats (i : Nat) :
    (s'.operators i).signingKeysStats = (s.operators i).signingKeysStats := by
  obtain ⟨stats, summary, rfl, -⟩ := h.eq
  simp only [saveSummarySigningKeysStats, saveOperatorTargetValidatorsStats]
  rcases eq_or_ne i id with rfl | hne
  · rw [Function.update_self]
  · rw [Function.update_of_ne hne]

end limits

/-- No operator was added, and for each the same number of keys is deposited. -/
structure SameDeposits (s s' : NodeOperatorsRegistry) : Prop where
  totalOperatorsCount : s'.totalOperatorsCount = s.totalOperatorsCount
  stuckPenaltyDelay : s'.stuckPenaltyDelay = s.stuckPenaltyDelay
  deposited : ∀ i, (s'.operators i).deposited = (s.operators i).deposited

theorem SameDeposits.refl (s : NodeOperatorsRegistry) : SameDeposits s s :=
  ⟨rfl, rfl, fun _ => rfl⟩

theorem SameDeposits.trans {s'' : NodeOperatorsRegistry} (h : SameDeposits s s')
    (h' : SameDeposits s' s'') : SameDeposits s s'' where
  totalOperatorsCount := h'.totalOperatorsCount.trans h.totalOperatorsCount
  stuckPenaltyDelay := h'.stuckPenaltyDelay.trans h.stuckPenaltyDelay
  deposited i := (h'.deposited i).trans (h.deposited i)

theorem LimitsApplied.sameDeposits (h : LimitsApplied s s' id) : SameDeposits s s' where
  totalOperatorsCount := h.totalOperatorsCount
  stuckPenaltyDelay := h.stuckPenaltyDelay
  deposited i := by rw [NodeOperator.deposited, NodeOperator.deposited, h.signingKeysStats]

theorem Edited.sameDeposits (he : Edited s s' id op loaded trimmed loaded' trimmed')
    (hop : op.deposited = (s.operators id).deposited) : SameDeposits s s' where
  totalOperatorsCount := he.totalOperatorsCount
  stuckPenaltyDelay := he.stuckPenaltyDelay
  deposited i := by
    rw [he.operators]
    rcases eq_or_ne i id with rfl | hne
    · rw [Function.update_self, hop]
    · rw [Function.update_of_ne hne]

/-- Change an operator and apply its limits. -/
theorem Balanced.ensures_limits (h : Balanced s loaded trimmed) (hid : id < s.totalOperatorsCount)
    (he : Edited s s' id op loaded trimmed loaded' trimmed') :
    Ensures allowed (s'.updateSummaryMaxValidatorsCount env id) fun s'' =>
      Balanced s'' loaded' trimmed' ∧ LimitsApplied s' s'' id :=
  ensures_updateSummaryMaxValidatorsCount (h.toCounted.edited hid he)
    (he.totalOperatorsCount.symm ▸ hid) (h.settled_of_ne he)

theorem Balanced.increaseValidatorsKeysNonce (h : Balanced s loaded trimmed) :
    Balanced s.increaseValidatorsKeysNonce loaded trimmed :=
  { h with }

end NodeOperatorsRegistry

end Catalist
