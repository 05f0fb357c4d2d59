import Catalist.Lib.History
import Catalist.Registry.Limits
import Catalist.Registry.Steps
import Catalist.Registry.Steps

/-!
# The penalty of an operator with stuck validators

A penalty ends some time after the last moment at which the stuck validators of the operator were
resolved, which is when their number fell to the refunded one or the refunded number rose to it.
Even then the operator gets no keys deposited before `clearNodeOperatorPenalty` was called.

A report can resolve the stuck validators of an operator between two of its entries, so runs are
recorded here entry by entry. `exists_updates` finds such a record for every run of calls.
-/

namespace Catalist

open Solidity ByteBuffer Transition

/-- What happens to the registry at once: a call, or an entry of a report of stuck validators. -/
inductive RegistryUpdate where
  | call (action : RegistryAction)
  | stuckEntry (nodeOperatorId stuckValidatorsCount : Nat)
  | reportEnd

/-- A call that is one update, which is every call but a report of stuck validators. -/
def RegistryAction.Whole : RegistryAction → Prop
  | .updateStuckValidatorsCount .. => False
  | _ => True

/-- What the update does to the registry. -/
def RegistryUpdate.run (update : RegistryUpdate) (getKeyOffset : Nat → Nat → BitVec 256)
    (env : RegistryEnv) (s : NodeOperatorsRegistry) : Call RegistryError NodeOperatorsRegistry :=
  match update with
  | .call action => action.run getKeyOffset env s
  | .stuckEntry id count => do
    s.onlyExistedNodeOperator id
    s.updateStuckValidatorsCountInternal env id count
  | .reportEnd => return s.increaseValidatorsKeysNonce

/-- A registry, and the time of the last update. -/
structure ClockedRegistry where
  registry : NodeOperatorsRegistry
  now : Nat

/-- A run, update by update. -/
abbrev RegistryHistory := Transition.Recorded ClockedRegistry (RegistryEnv × RegistryUpdate)

abbrev RegistryMoment := Moment ClockedRegistry (RegistryEnv × RegistryUpdate)

namespace NodeOperator

open NodeOperatorsRegistry

variable {op op' op'' : NodeOperator} {now : Nat}

/-- The operator has more stuck validators than refunded ones. -/
def Stuck (op : NodeOperator) : Prop := op.refunded < op.stuck

/-- The penalty ends at `endTimestamp` if the stuck validators are resolved, else as before. -/
structure PenaltyMoves (endTimestamp : Nat) (op op' : NodeOperator) : Prop where
  of_resolved : op.Stuck → ¬ op'.Stuck → op'.penaltyEnd = endTimestamp
  of_unresolved : ¬ (op.Stuck ∧ ¬ op'.Stuck) → op'.penaltyEnd = op.penaltyEnd

/-- The penalty is over and is cleared. -/
structure PenaltyClears (now : Nat) (op op' : NodeOperator) : Prop where
  not_stuck : ¬ op.Stuck
  penaltyEnd_lt : op.penaltyEnd < now
  not_stuck' : ¬ op'.Stuck
  penaltyEnd : op'.penaltyEnd = 0

/-- The penalty only depends on its packed word. -/
theorem penaltyMoves_of_stats {endTimestamp : Nat}
    (h : op'.stuckPenaltyStats = op.stuckPenaltyStats) : PenaltyMoves endTimestamp op op' where
  of_resolved hstuck hnot := by
    unfold Stuck refunded stuck at hstuck hnot
    rw [h] at hnot
    exact absurd hstuck hnot
  of_unresolved _ := by rw [NodeOperator.penaltyEnd, NodeOperator.penaltyEnd, h]

theorem penaltyMoves_of_end {endTimestamp : Nat} {stats : Packed} {resolved : Prop}
    [Decidable resolved]
    (hresolved : resolved ↔ op.Stuck ∧
      ¬ NodeOperator.Stuck { op with stuckPenaltyStats := stats })
    (hend : stats.get STUCK_PENALTY_END_TIMESTAMP_OFFSET
      = if resolved then endTimestamp else op.penaltyEnd) :
    PenaltyMoves endTimestamp op { op with stuckPenaltyStats := stats } where
  of_resolved hbefore hafter := hend.trans (if_pos (hresolved.mpr ⟨hbefore, hafter⟩))
  of_unresolved hnot := hend.trans (if_neg (mt hresolved.mp hnot))

/-- A step that leaves the packed word alone may follow. -/
theorem PenaltyMoves.trans_stats {endTimestamp : Nat} (h : PenaltyMoves endTimestamp op op')
    (hstats : op''.stuckPenaltyStats = op'.stuckPenaltyStats) :
    PenaltyMoves endTimestamp op op'' := by
  have hend : op''.penaltyEnd = op'.penaltyEnd := by
    rw [NodeOperator.penaltyEnd, NodeOperator.penaltyEnd, hstats]
  have hstuck : op''.Stuck ↔ op'.Stuck := by
    unfold Stuck refunded stuck
    rw [hstats]
  constructor
  · intro hbefore hafter
    rw [hend]
    exact h.of_resolved hbefore (mt hstuck.mpr hafter)
  · intro hnot
    rw [hend]
    refine h.of_unresolved ?_
    rwa [hstuck] at hnot

end NodeOperator

/-- The update resolves the stuck validators of the operator. -/
def Resolves (id : Nat) (m : RegistryMoment) : Prop :=
  (m.before.registry.operators id).Stuck ∧ ¬ (m.after.registry.operators id).Stuck

/-- The update is a successful `clearNodeOperatorPenalty`. -/
def Clears (id : Nat) (m : RegistryMoment) : Prop :=
  m.action.2 = .call (.clearNodeOperatorPenalty id)

/-- The time of the update, and the penalty delay in force then. -/
def resolvedPenaltyEnd (m : RegistryMoment) : Nat :=
  m.action.1.timestamp + m.before.registry.stuckPenaltyDelay

namespace NodeOperatorsRegistry

variable {s s' : NodeOperatorsRegistry} {env : RegistryEnv} {id n : Nat}
  {getKeyOffset : Nat → Nat → BitVec 256} {c c' : ClockedRegistry} {w w' : RegistryHistory}

/-! ## What an update does to a penalty -/

/-- The penalty of every operator ends as before, or `stuckPenaltyDelay` after this call. -/
def PenaltiesMove (env : RegistryEnv) (s s' : NodeOperatorsRegistry) : Prop :=
  ∀ i, NodeOperator.PenaltyMoves (uncheckedAdd env.timestamp s.stuckPenaltyDelay)
    (s.operators i) (s'.operators i)

theorem PenaltiesMove.refl : PenaltiesMove env s s :=
  fun _ => NodeOperator.penaltyMoves_of_stats rfl

/-- The end of the penalty that `updateStuckPenaltyEnd` leaves. -/
theorem updateStuckPenaltyEnd_get {stats : Packed} {resolved : Prop} [Decidable resolved] :
    Ensures (fun _ => True) (s.updateStuckPenaltyEnd env stats resolved) fun stats' =>
      (∀ m, m ≠ STUCK_PENALTY_END_TIMESTAMP_OFFSET → stats'.get m = stats.get m) ∧
      stats'.get STUCK_PENALTY_END_TIMESTAMP_OFFSET
        = if resolved then uncheckedAdd env.timestamp s.stuckPenaltyDelay
          else stats.get STUCK_PENALTY_END_TIMESTAMP_OFFSET := by
  unfold updateStuckPenaltyEnd
  by_cases h : resolved
  · rw [if_pos h, if_pos h]
    exact (ensures_set (.inr trivial)).mono fun _ hstats => ⟨hstats.get_of_ne, hstats.get⟩
  · rw [if_neg h, if_neg h]
    exact ensures_pure ⟨fun _ _ => rfl, rfl⟩

/-- The packed word of one operator is replaced, and its limits are applied. -/
theorem penaltiesMove_limits {stats : Packed}
    (h : NodeOperator.PenaltyMoves (uncheckedAdd env.timestamp s.stuckPenaltyDelay)
      (s.operators id) { s.operators id with stuckPenaltyStats := stats }) :
    Ensures (fun _ => True)
      ((s.saveOperatorStuckPenaltyStats id stats).updateSummaryMaxValidatorsCount env id)
      (PenaltiesMove env s) := by
  refine onlyTargets_updateSummaryMaxValidatorsCount.mono fun s' hs i => ?_
  have hstats := hs.stuckPenaltyStats i
  change (s'.operators i).stuckPenaltyStats
    = (Function.update s.operators id { s.operators id with stuckPenaltyStats := stats }
      i).stuckPenaltyStats at hstats
  by_cases hi : i = id
  · subst hi
    rw [Function.update_self] at hstats
    exact h.trans_stats hstats
  · rw [Function.update_of_ne hi] at hstats
    exact NodeOperator.penaltyMoves_of_stats hstats

/-- `_updateStuckValidatorsCount` -/
theorem penaltiesMove_updateStuckValidatorsCountInternal :
    Ensures (fun _ => True) (s.updateStuckValidatorsCountInternal env id n)
      (PenaltiesMove env s) := by
  unfold updateStuckValidatorsCountInternal
  simp only
  split
  · exact ensures_pure PenaltiesMove.refl
  · refine (ensures_any _).bind fun _ _ => ?_
    refine ensures_check.bind fun _ _ => ?_
    refine updateStuckPenaltyEnd_get.bind fun stats₁ hstats₁ => ?_
    refine (ensures_set (.inr trivial)).bind fun stats hstats => ?_
    obtain ⟨hsame, hend⟩ := hstats₁
    have hstuck : stats.get STUCK_VALIDATORS_COUNT_OFFSET = n := hstats.get
    have hrefunded : stats.get REFUNDED_VALIDATORS_COUNT_OFFSET = (s.operators id).refunded :=
      (hstats.get_of_ne _ (by decide)).trans (hsame _ (by decide))
    refine penaltiesMove_limits (NodeOperator.penaltyMoves_of_end ?_
      ((hstats.get_of_ne STUCK_PENALTY_END_TIMESTAMP_OFFSET (by decide)).trans hend))
    show n ≤ (s.operators id).refunded ∧ (s.operators id).refunded < (s.operators id).stuck ↔
      (s.operators id).refunded < (s.operators id).stuck ∧
        ¬ stats.get REFUNDED_VALIDATORS_COUNT_OFFSET < stats.get STUCK_VALIDATORS_COUNT_OFFSET
    rw [hstuck, hrefunded, Nat.not_lt, and_comm]

theorem penaltiesMove_updateRefundedValidatorsCount :
    Ensures (fun _ => True) (s.updateRefundedValidatorsCount env id n) (PenaltiesMove env s) := by
  refine ensures_check.bind fun _ _ => ?_
  refine ensures_check.bind fun _ _ => ?_
  unfold updateRefundValidatorsKeysCount
  simp only
  split
  · exact ensures_pure PenaltiesMove.refl
  · refine ensures_check.bind fun _ _ => ?_
    refine updateStuckPenaltyEnd_get.bind fun stats₁ hstats₁ => ?_
    refine (ensures_set (.inr trivial)).bind fun stats hstats => ?_
    obtain ⟨hsame, hend⟩ := hstats₁
    have hrefunded : stats.get REFUNDED_VALIDATORS_COUNT_OFFSET = n := hstats.get
    have hstuck : stats.get STUCK_VALIDATORS_COUNT_OFFSET = (s.operators id).stuck :=
      (hstats.get_of_ne _ (by decide)).trans (hsame _ (by decide))
    refine penaltiesMove_limits (NodeOperator.penaltyMoves_of_end ?_
      ((hstats.get_of_ne STUCK_PENALTY_END_TIMESTAMP_OFFSET (by decide)).trans hend))
    show (s.operators id).stuck ≤ n ∧ (s.operators id).refunded < (s.operators id).stuck ↔
      (s.operators id).refunded < (s.operators id).stuck ∧
        ¬ stats.get REFUNDED_VALIDATORS_COUNT_OFFSET < stats.get STUCK_VALIDATORS_COUNT_OFFSET
    rw [hstuck, hrefunded, Nat.not_lt, and_comm]

/-- The exited count is updated after the stuck one, and moves no penalty. -/
theorem penaltiesMove_unsafeUpdateValidatorsCount {m : Nat} (h : Invariant s) :
    Ensures (fun _ => True) (s.unsafeUpdateValidatorsCount env id n m) (PenaltiesMove env s) := by
  refine (ensures_require trivial).bind fun _ hid => ?_
  refine ensures_check.bind fun _ _ => ?_
  have hstuck : Keeps s False [.ready, .penalties] (s.updateStuckValidatorsCountInternal env id m) :=
    keeps_updateStuckValidatorsCountInternal h hid False.elim
  refine (penaltiesMove_updateStuckValidatorsCountInternal.and hstuck).bind ?_
  rintro s₁ ⟨h₁, hkept⟩
  have hid₁ : id < s₁.totalOperatorsCount := hkept.totalOperatorsCount.symm ▸ hid
  have hexited : Keeps s₁ False [.ready] (s₁.updateExitedValidatorsCountInternal env id n true) :=
    keeps_updateExitedValidatorsCountInternal hkept.invariant hid₁
  refine ((ensures_any _).and hexited).bind ?_
  rintro s₂ ⟨-, h₂⟩
  exact ensures_pure fun i => (h₁ i).trans_stats (h₂.stuckPenaltyStats (by decide) i)

/-- The penalty of the operator is over, and that of every other operator stays. -/
theorem penaltyClears_clearNodeOperatorPenalty :
    Ensures (fun _ => True) (s.clearNodeOperatorPenalty env id) fun s' =>
      NodeOperator.PenaltyClears env.timestamp (s.operators id) (s'.operators id) ∧
      ∀ i, i ≠ id → (s'.operators i).stuckPenaltyStats = (s.operators i).stuckPenaltyStats := by
  refine (ensures_require trivial).bind fun _ hover => ?_
  refine (ensures_set (.inr trivial)).bind fun stats hstats => ?_
  refine onlyTargets_updateSummaryMaxValidatorsCount.bind fun s₁ hs => ensures_pure ?_
  have hsaved : ∀ i, (s₁.operators i).stuckPenaltyStats
      = (Function.update s.operators id { s.operators id with stuckPenaltyStats := stats }
        i).stuckPenaltyStats := hs.stuckPenaltyStats
  constructor
  · have hself := hsaved id
    rw [Function.update_self] at hself
    have hnot := hover.1
    simp only [isOperatorPenalizedInternal, decide_eq_false_iff_not, not_or, Nat.not_le] at hnot
    have hstuck : stats.get STUCK_VALIDATORS_COUNT_OFFSET = (s.operators id).stuck :=
      hstats.get_of_ne _ (by decide)
    have hrefunded : stats.get REFUNDED_VALIDATORS_COUNT_OFFSET = (s.operators id).refunded :=
      hstats.get_of_ne _ (by decide)
    refine ⟨hnot.1, hnot.2, ?_, ?_⟩
    · show ¬ (s₁.operators id).stuckPenaltyStats.get _ < (s₁.operators id).stuckPenaltyStats.get _
      rw [hself, hstuck, hrefunded]
      exact hnot.1
    · show (s₁.operators id).stuckPenaltyStats.get _ = 0
      rw [hself]
      exact hstats.get
  · intro i hi
    have hother := hsaved i
    rw [Function.update_of_ne hi] at hother
    exact hother

/-! ## Updates -/

/--
An update at a time that is not before the last one. The end of a penalty does not wrap around the
256 bits of a word.
-/
structure Performs (getKeyOffset : Nat → Nat → BitVec 256) (c : ClockedRegistry)
    (update : RegistryEnv × RegistryUpdate) (c' : ClockedRegistry) : Prop where
  whole : ∀ action, update.2 = .call action → action.Whole
  now_le : c.now ≤ update.1.timestamp
  now : c'.now = update.1.timestamp
  fits : update.1.timestamp + MAX_STUCK_PENALTY_DELAY < 2 ^ 256
  run : update.2.run getKeyOffset update.1 c.registry = .ok c'.registry

/-- The steps of runs, call by call. -/
def ClockedStep (getKeyOffset : Nat → Nat → BitVec 256) (c c' : ClockedRegistry) : Prop :=
  ∃ env action, c.now ≤ env.timestamp ∧ c'.now = env.timestamp ∧
    env.timestamp + MAX_STUCK_PENALTY_DELAY < 2 ^ 256 ∧
    RegistryAction.run action getKeyOffset env c.registry = .ok c'.registry

/-- A new registry, at any time. -/
def ClockedInitial (c : ClockedRegistry) : Prop := Initial c.registry

/-- Runs, update by update. -/
abbrev HistoryRun (getKeyOffset : Nat → Nat → BitVec 256) (w : RegistryHistory) : Prop :=
  Reachable (Transition.Recorded.Starts ClockedInitial)
    (Transition.Recorded.Acts (Performs getKeyOffset)) w

theorem Performs.invariant {update : RegistryEnv × RegistryUpdate} (h : Invariant c.registry)
    (hp : Performs getKeyOffset c update c') : Invariant c'.registry := by
  obtain ⟨env, u⟩ := update
  have hrun := hp.run
  cases u with
  | call action => exact ((ensures_run h).of_ok hrun).invariant
  | stuckEntry id count =>
    have hkeeps : Ensures (Harmless False)
        (RegistryUpdate.run (.stuckEntry id count) getKeyOffset env c.registry)
        fun s' => Invariant s' := by
      refine (ensures_require fun _ => not_false).bind fun _ hid => ?_
      exact (keeps_updateStuckValidatorsCountInternal h hid False.elim).mono fun _ hs => hs.invariant
    exact hkeeps.of_ok hrun
  | reportEnd =>
    rw [← Except.ok.inj hrun]
    exact h.increaseValidatorsKeysNonce

/-- **What an update does to the penalties**, one case for each function. -/
theorem Performs.penalties {update : RegistryEnv × RegistryUpdate} (h : Invariant c.registry)
    (hp : Performs getKeyOffset c update c') (i : Nat) :
    (update.2 = .call (.clearNodeOperatorPenalty i) ∧
      NodeOperator.PenaltyClears update.1.timestamp (c.registry.operators i)
        (c'.registry.operators i)) ∨
    NodeOperator.PenaltyMoves
      (uncheckedAdd update.1.timestamp c.registry.stuckPenaltyDelay)
      (c.registry.operators i) (c'.registry.operators i) := by
  obtain ⟨env, u⟩ := update
  have hrun := hp.run
  cases u with
  | reportEnd =>
    rw [← Except.ok.inj hrun]
    exact .inr (NodeOperator.penaltyMoves_of_stats rfl)
  | stuckEntry id count =>
    have hmoves : Ensures (fun _ => True)
        (RegistryUpdate.run (.stuckEntry id count) getKeyOffset env c.registry)
        (PenaltiesMove env c.registry) :=
      ensures_check.bind fun _ _ => penaltiesMove_updateStuckValidatorsCountInternal
    exact .inr (hmoves.of_ok hrun i)
  | call action =>
    have hgrown := (ensures_run h).of_ok hrun
    cases action with
    -- a report of stuck validators is performed entry by entry
    | updateStuckValidatorsCount ids counts => exact (hp.whole _ rfl).elim
    | updateRefundedValidatorsCount id count =>
      exact .inr (penaltiesMove_updateRefundedValidatorsCount.of_ok hrun i)
    | unsafeUpdateValidatorsCount id exitedCount stuckCount =>
      exact .inr ((penaltiesMove_unsafeUpdateValidatorsCount h).of_ok hrun i)
    -- the only call that clears a penalty, and it is for one operator
    | clearNodeOperatorPenalty id =>
      obtain ⟨hclears, hother⟩ := penaltyClears_clearNodeOperatorPenalty.of_ok hrun
      by_cases hi : i = id
      · subst hi
        exact .inl ⟨rfl, hclears⟩
      · exact .inr (NodeOperator.penaltyMoves_of_stats (hother i hi))
    | _ =>
      refine .inr (NodeOperator.penaltyMoves_of_stats ?_)
      exact hgrown.stuckPenaltyStats (by simp [RegistryAction.parts]) i

/-! ## After the operator was stuck -/

/-- The penalty ends as the update says, or it was over then and was cleared. -/
def EndsAs (id : Nat) (m : RegistryMoment) (later : List RegistryMoment) (c : ClockedRegistry) :
    Prop :=
  (c.registry.operators id).penaltyEnd = resolvedPenaltyEnd m ∨
    (c.registry.operators id).penaltyEnd = 0 ∧ resolvedPenaltyEnd m < c.now ∧
      ∃ m' ∈ later, Clears id m'

/-- The stuck validators are resolved, and the last update that resolved them says for how long. -/
structure ResolvedIn (id : Nat) (later : List RegistryMoment) (c : ClockedRegistry) : Prop where
  not_stuck : ¬ (c.registry.operators id).Stuck
  last : ∃ before m after, later = before ++ m :: after ∧ Resolves id m ∧
    (∀ m' ∈ after, ¬ Resolves id m') ∧ 0 < resolvedPenaltyEnd m ∧ EndsAs id m later c

/-- What holds of an operator after it was stuck, with the updates since then. -/
def PenaltyKept (id : Nat) (later : List RegistryMoment) (c : ClockedRegistry) : Prop :=
  (c.registry.operators id).Stuck ∨ ResolvedIn id later c

/-- An update of an operator that was not stuck does not resolve anything. -/
theorem ResolvedIn.extend {later : List RegistryMoment} {m : RegistryMoment}
    (h : ResolvedIn id later m.before) (hstuck : ¬ (m.after.registry.operators id).Stuck)
    (hends : ∀ last, EndsAs id last later m.before → EndsAs id last (later ++ [m]) m.after) :
    ResolvedIn id (later ++ [m]) m.after := by
  obtain ⟨before, last, after, hsplit, hresolves, hnone, hpos, hlast⟩ := h.last
  refine ⟨hstuck, before, last, after ++ [m], ?_, hresolves, ?_, hpos, hends last hlast⟩
  · rw [hsplit, List.append_assoc, List.cons_append]
  · intro m' hm'
    rw [List.mem_append, List.mem_singleton] at hm'
    rcases hm' with hm' | rfl
    · exact hnone m' hm'
    · exact fun hr => h.not_stuck hr.1

/-- **Every update keeps what holds since the operator was stuck.** -/
theorem PenaltyKept.step {later : List RegistryMoment} {m : RegistryMoment}
    (h : PenaltyKept id later m.before) (hinvariant : Invariant m.before.registry)
    (hp : Performs getKeyOffset m.before m.action m.after) :
    PenaltyKept id (later ++ [m]) m.after := by
  have hnow : m.before.now ≤ m.after.now := hp.now ▸ hp.now_le
  rcases hp.penalties hinvariant id with ⟨hclears, hpenalty⟩ | hmoves
  · have hresolved : ResolvedIn id later m.before := h.resolve_left hpenalty.not_stuck
    refine .inr (hresolved.extend hpenalty.not_stuck' fun last hlast => ?_)
    refine .inr ⟨hpenalty.penaltyEnd, ?_, m, List.mem_append_right _ List.mem_cons_self, hclears⟩
    have hlt := hpenalty.penaltyEnd_lt
    rw [← hp.now] at hlt
    rcases hlast with heq | ⟨-, hpast, -⟩
    · rwa [heq] at hlt
    · exact Nat.lt_of_lt_of_le hpast hnow
  · by_cases hafter : (m.after.registry.operators id).Stuck
    · exact .inl hafter
    by_cases hbefore : (m.before.registry.operators id).Stuck
    · -- this update resolves the stuck validators
      have hdelay := hinvariant.stuckPenaltyDelay_le
      have hfits := hp.fits
      have hend : (m.after.registry.operators id).penaltyEnd = resolvedPenaltyEnd m :=
        (hmoves.of_resolved hbefore hafter).trans (uncheckedAdd_of_lt (by omega))
      have htime := m.action.1.timestamp_pos
      refine .inr ⟨hafter, later, m, [], rfl, ⟨hbefore, hafter⟩, fun _ hm' => ?_, ?_, .inl hend⟩
      · cases hm'
      · unfold resolvedPenaltyEnd
        omega
    · have hresolved : ResolvedIn id later m.before := h.resolve_left hbefore
      have hend := hmoves.of_unresolved fun hr => hbefore hr.1
      refine .inr (hresolved.extend hafter fun last hlast => ?_)
      rcases hlast with heq | ⟨hzero, hpast, m', hm', hclears⟩
      · exact .inl (hend.trans heq)
      · exact .inr ⟨hend.trans hzero, Nat.lt_of_lt_of_le hpast hnow, m',
          List.mem_append_left _ hm', hclears⟩

theorem invariant_of_history (h : HistoryRun getKeyOffset w) : Invariant w.state.registry := by
  induction h with
  | init h0 => exact invariant_of_initial h0.1
  | step _ hs ih =>
    obtain ⟨hp⟩ := hs
    exact hp.invariant ih

/-- The induction is over the updates after the one that left the operator stuck. -/
theorem penaltyKept_of_reachable {past later : List RegistryMoment} {m : RegistryMoment}
    (h : HistoryRun getKeyOffset w) (hhistory : w.history = past ++ m :: later)
    (hstuck : (m.after.registry.operators id).Stuck) :
    PenaltyKept id later w.state := by
  obtain ⟨hpast, hp, hrun⟩ := h.cut (fun _ h0 => by simp [h0.2]) hhistory
  suffices hkept : Invariant w.state.registry ∧ ∃ later', w.history = past ++ m :: later' ∧
      PenaltyKept id later' w.state by
    obtain ⟨-, later', hsplit, hlaw⟩ := hkept
    rw [hhistory] at hsplit
    obtain rfl := (List.cons.inj (List.append_cancel_left hsplit)).2
    exact hlaw
  clear h hhistory
  induction hrun with
  | init heq =>
    subst heq
    exact ⟨hp.invariant (invariant_of_history hpast), [], by simp, .inl hstuck⟩
  | @step w₁ w₂ _ hs ih =>
    obtain ⟨hinvariant, later', hsplit, hlaw⟩ := ih
    cases hs with
    | @act update c₂ hp' =>
      refine ⟨hp'.invariant hinvariant, later' ++ [⟨w₁.state, update, c₂⟩], ?_, ?_⟩
      · show w₁.history ++ [_] = _
        rw [hsplit, List.append_assoc, List.cons_append]
      · exact @PenaltyKept.step id _ later' ⟨w₁.state, update, c₂⟩ hlaw hinvariant hp'

/-! ## Runs of calls -/

theorem HistoryRun.act {update : RegistryEnv × RegistryUpdate} (h : HistoryRun getKeyOffset w)
    (hp : Performs getKeyOffset w.state update c') : HistoryRun getKeyOffset (w.record update c') :=
  h.step ⟨hp⟩

theorem performs_call {action : RegistryAction} {now : Nat} (hwhole : action.Whole)
    (hnow : now ≤ env.timestamp) (hfits : env.timestamp + MAX_STUCK_PENALTY_DELAY < 2 ^ 256)
    (hrun : action.run getKeyOffset env s = .ok s') :
    Performs getKeyOffset ⟨s, now⟩ (env, .call action) ⟨s', env.timestamp⟩ where
  whole _ heq := by
    cases heq
    exact hwhole
  now_le := hnow
  now := rfl
  fits := hfits
  run := hrun

/-- A run goes on to the registry `s`, at the time of the call or before. -/
def GoesOn (getKeyOffset : Nat → Nat → BitVec 256) (env : RegistryEnv) (s : NodeOperatorsRegistry) :
    Prop :=
  ∃ w, HistoryRun getKeyOffset w ∧ w.state.registry = s ∧ w.state.now ≤ env.timestamp

theorem GoesOn.update {update : RegistryUpdate} (h : GoesOn getKeyOffset env s)
    (hwhole : ∀ action, update = .call action → action.Whole)
    (hfits : env.timestamp + MAX_STUCK_PENALTY_DELAY < 2 ^ 256)
    (hrun : update.run getKeyOffset env s = .ok s') :
    ∃ w, HistoryRun getKeyOffset w ∧ w.state = ⟨s', env.timestamp⟩ := by
  obtain ⟨w, hw, rfl, hnow⟩ := h
  exact ⟨w.record (env, update) ⟨s', env.timestamp⟩,
    hw.act ⟨hwhole, hnow, rfl, hfits, hrun⟩, rfl⟩

theorem GoesOn.stuckEntry (h : GoesOn getKeyOffset env s) (hid : id < s.totalOperatorsCount)
    (hfits : env.timestamp + MAX_STUCK_PENALTY_DELAY < 2 ^ 256)
    (hentry : s.updateStuckValidatorsCountInternal env id n = .ok s') :
    GoesOn getKeyOffset env s' ∧ s'.totalOperatorsCount = s.totalOperatorsCount := by
  have hinvariant : Invariant s := by
    obtain ⟨w, hw, rfl, -⟩ := h
    exact invariant_of_history hw
  have hkeeps : Keeps s False [.ready, .penalties] (s.updateStuckValidatorsCountInternal env id n) :=
    keeps_updateStuckValidatorsCountInternal hinvariant hid False.elim
  have hupdate : RegistryUpdate.run (.stuckEntry id n) getKeyOffset env s = .ok s' := by
    simp only [RegistryUpdate.run, onlyExistedNodeOperator, bind_eq_ok, require_eq_ok]
    exact ⟨(), hid, hentry⟩
  obtain ⟨w, hw, hstate⟩ := h.update (fun _ heq => by cases heq) hfits hupdate
  refine ⟨⟨w, hw, ?_, ?_⟩, (hkeeps.of_ok hentry).totalOperatorsCount⟩
  · rw [hstate]
  · rw [hstate]

/-- The induction is over the entries that are left. -/
theorem GoesOn.reportLoop {ids counts : Bytes} {left i : Nat} (h : GoesOn getKeyOffset env s)
    (hfits : env.timestamp + MAX_STUCK_PENALTY_DELAY < 2 ^ 256)
    (hloop : NodeOperatorsRegistry.reportLoop
      (fun s id count => s.updateStuckValidatorsCountInternal env id count)
      s.totalOperatorsCount ids counts left i s = .ok s') : GoesOn getKeyOffset env s' := by
  induction left generalizing i s with
  | zero =>
    cases hloop
    exact h
  | succ left ih =>
    simp only [NodeOperatorsRegistry.reportLoop, bind_eq_ok, require_eq_ok] at hloop
    obtain ⟨_, hid, s₁, hentry, hrest⟩ := hloop
    obtain ⟨h₁, hcount⟩ := h.stuckEntry hid hfits hentry
    rw [← hcount] at hrest
    exact ih h₁ hrest

/-- **Every run of calls is recorded**, update by update. -/
theorem exists_updates (h : Reachable ClockedInitial (ClockedStep getKeyOffset) c) :
    ∃ history, HistoryRun getKeyOffset ⟨c, history⟩ := by
  suffices hrun : ∃ w, HistoryRun getKeyOffset w ∧ w.state = c by
    obtain ⟨w, hw, rfl⟩ := hrun
    exact ⟨w.history, hw⟩
  induction h with
  | @init c h0 => exact ⟨⟨c, []⟩, .init ⟨h0, rfl⟩, rfl⟩
  | @step c₁ c₂ _ hs ih =>
    obtain ⟨env, action, hle, hnow, hfits, hrun⟩ := hs
    obtain ⟨w, hw, rfl⟩ := ih
    have hstart : GoesOn getKeyOffset env w.state.registry := ⟨w, hw, rfl, hle⟩
    have hc₂ : c₂ = ⟨c₂.registry, env.timestamp⟩ := by rw [← hnow]
    rw [hc₂]
    by_cases hwhole : action.Whole
    · exact ⟨_, hw.act (performs_call hwhole hle hfits hrun), rfl⟩
    · -- a report goes through entry by entry
      cases action with
      | updateStuckValidatorsCount ids counts =>
        simp only [RegistryAction.run, updateStuckValidatorsCount, bind_eq_ok, pure_eq_ok] at hrun
        obtain ⟨_, -, count, -, s₁, hloop, hend⟩ := hrun
        have hupdate : RegistryUpdate.run .reportEnd getKeyOffset env s₁ = .ok c₂.registry :=
          congrArg Except.ok hend
        exact (hstart.reportLoop hfits hloop).update (fun _ heq => by cases heq) hfits hupdate
      | _ => exact absurd trivial hwhole

/-! ## The penalty cannot be shaken off -/

/--
**A stuck operator cannot shake off its penalty.** Once it has more stuck validators than refunded
ones, it is penalized until they are resolved and the penalty delay that was in force then has
passed, and it gets no keys deposited until the penalty is cleared. The runs are recorded update by
update, and every run of calls is one of them.
-/
theorem penalty_not_shaken_off (getKeyOffset : Nat → Nat → BitVec 256) :
    (∀ c, Reachable ClockedInitial (ClockedStep getKeyOffset) c →
      ∃ history, HistoryRun getKeyOffset ⟨c, history⟩) ∧
    ∀ w, HistoryRun getKeyOffset w → ∀ id past m later, w.history = past ++ m :: later →
      (m.after.registry.operators id).Stuck →
      (∀ env : RegistryEnv, w.state.now ≤ env.timestamp →
        w.state.registry.isOperatorPenalized env id = true ∨
          (¬ (w.state.registry.operators id).Stuck ∧
            ∃ before m' after, later = before ++ m' :: after ∧ Resolves id m' ∧
              (∀ m'' ∈ after, ¬ Resolves id m'') ∧ resolvedPenaltyEnd m' < env.timestamp)) ∧
      ((∀ m' ∈ later, ¬ Clears id m') → depositable (w.state.registry.operators id) = 0) := by
  refine ⟨fun c h => exists_updates h, fun w h id past m later hhistory hstuck => ?_⟩
  have hkept := penaltyKept_of_reachable h hhistory hstuck
  have hpenalized : ∀ env : RegistryEnv, w.state.registry.isOperatorPenalized env id = true ↔
      (w.state.registry.operators id).Stuck ∨
        env.timestamp ≤ (w.state.registry.operators id).penaltyEnd := fun env => by
    simp only [isOperatorPenalized, isOperatorPenalizedInternal, decide_eq_true_eq]
    rfl
  constructor
  · intro env hnow
    rw [hpenalized]
    rcases hkept with hstill | hresolved
    · exact .inl (.inl hstill)
    obtain ⟨before, m', after, hsplit, hresolves, hnone, -, hend⟩ := hresolved.last
    by_cases htime : env.timestamp ≤ (w.state.registry.operators id).penaltyEnd
    · exact .inl (.inr htime)
    refine .inr ⟨hresolved.not_stuck, before, m', after, hsplit, hresolves, hnone, ?_⟩
    rcases hend with heq | ⟨-, hpast, -⟩
    · rw [← heq]
      exact Nat.lt_of_not_le htime
    · exact Nat.lt_of_lt_of_le hpast hnow
  · intro hnone
    have hlimit : (w.state.registry.operators id).limit
        = (w.state.registry.operators id).deposited := by
      refine if_neg fun hcleared => ?_
      rcases hkept with hstill | hresolved
      · exact absurd hcleared.1 (Nat.not_le_of_lt hstill)
      obtain ⟨_, m', _, _, _, _, hpos, hend⟩ := hresolved.last
      rcases hend with heq | ⟨-, -, m'', hm'', hclears⟩
      · rw [hcleared.2] at heq
        omega
      · exact hnone m'' hm'' hclears
    rw [depositable, (invariant_of_history h).settled id, hlimit, Nat.sub_self]

/-! ## An example -/

/-- Calls of the same block. -/
theorem reachable_clocked {calls : List (RegistryEnv × RegistryAction)}
    (hr : Reachable ClockedInitial (ClockedStep getKeyOffset) ⟨s, env.timestamp⟩)
    (hfits : env.timestamp + MAX_STUCK_PENALTY_DELAY < 2 ^ 256)
    (hcalls : ∀ call ∈ calls, call.1 = env) (h : s.runAll getKeyOffset calls = .ok s') :
    Reachable ClockedInitial (ClockedStep getKeyOffset) ⟨s', env.timestamp⟩ := by
  induction calls generalizing s with
  | nil =>
    cases h
    exact hr
  | cons call calls ih =>
    simp only [runAll, bind_eq_ok] at h
    obtain ⟨s₁, hrun, hrest⟩ := h
    rw [hcalls call List.mem_cons_self] at hrun
    exact ih (hr.step ⟨env, call.2, Nat.le_refl _, rfl, hfits, hrun⟩)
      (fun call' hmem => hcalls call' (List.mem_cons_of_mem _ hmem)) hrest

/-- One key of each operator is deposited. -/
def exampleDepositedRegistry : NodeOperatorsRegistry :=
  result (exampleRegistry.runAll exampleKeyOffset
    [(exampleRegistryEnv, .obtainDepositData 2)]) (by decide +kernel)

/-- The validator of the second operator is stuck. -/
def exampleStuckRegistry : NodeOperatorsRegistry :=
  result (RegistryAction.run (.unsafeUpdateValidatorsCount 1 0 1) exampleKeyOffset
    exampleRegistryEnv exampleDepositedRegistry) (by decide +kernel)

/-- It is refunded in the same block. -/
def exampleRefundedRegistry : NodeOperatorsRegistry :=
  result (RegistryAction.run (.updateRefundedValidatorsCount 1 1) exampleKeyOffset
    exampleRegistryEnv exampleStuckRegistry) (by decide +kernel)

theorem fits_exampleRegistryEnv :
    exampleRegistryEnv.timestamp + MAX_STUCK_PENALTY_DELAY < 2 ^ 256 := by decide

theorem run_exampleStuckRegistry :
    RegistryAction.run (.unsafeUpdateValidatorsCount 1 0 1) exampleKeyOffset exampleRegistryEnv
      exampleDepositedRegistry = .ok exampleStuckRegistry :=
  eq_ok_result _ (by decide +kernel)

theorem performs_exampleStuckRegistry :
    Performs exampleKeyOffset ⟨exampleDepositedRegistry, exampleRegistryEnv.timestamp⟩
      (exampleRegistryEnv, .call (.unsafeUpdateValidatorsCount 1 0 1))
      ⟨exampleStuckRegistry, exampleRegistryEnv.timestamp⟩ :=
  performs_call (by trivial) (Nat.le_refl _) fits_exampleRegistryEnv run_exampleStuckRegistry

theorem run_exampleRefundedRegistry :
    RegistryAction.run (.updateRefundedValidatorsCount 1 1) exampleKeyOffset exampleRegistryEnv
      exampleStuckRegistry = .ok exampleRefundedRegistry :=
  eq_ok_result _ (by decide +kernel)

theorem performs_exampleRefundedRegistry :
    Performs exampleKeyOffset ⟨exampleStuckRegistry, exampleRegistryEnv.timestamp⟩
      (exampleRegistryEnv, .call (.updateRefundedValidatorsCount 1 1))
      ⟨exampleRefundedRegistry, exampleRegistryEnv.timestamp⟩ :=
  performs_call (by trivial) (Nat.le_refl _) fits_exampleRegistryEnv run_exampleRefundedRegistry

theorem stuck_exampleStuckRegistry : (exampleStuckRegistry.operators 1).Stuck := by
  unfold NodeOperator.Stuck
  decide +kernel

theorem reachable_exampleDepositedRegistry :
    Reachable ClockedInitial (ClockedStep exampleKeyOffset)
      ⟨exampleDepositedRegistry, exampleRegistryEnv.timestamp⟩ := by
  have hfits := fits_exampleRegistryEnv
  have hinitial : Reachable ClockedInitial (ClockedStep exampleKeyOffset)
      ⟨exampleInitialRegistry, exampleRegistryEnv.timestamp⟩ :=
    .init initial_exampleInitialRegistry
  have hkeys := reachable_clocked hinitial hfits (by simp [exampleCalls]) runAll_exampleRegistry
  exact reachable_clocked hkeys hfits (by simp) (eq_ok_result _ (by decide +kernel))

/-- The second operator could have had another key deposited, but stays penalized for the delay. -/
theorem penalty_not_shaken_off_refunded :
    depositable (exampleDepositedRegistry.operators 1) = 1 ∧
    depositable (exampleRefundedRegistry.operators 1) = 0 ∧
    ∀ env : RegistryEnv, 100 ≤ env.timestamp → env.timestamp ≤ 1100 →
      exampleRefundedRegistry.isOperatorPenalized env 1 = true := by
  obtain ⟨hrecord, hlaw⟩ := penalty_not_shaken_off exampleKeyOffset
  obtain ⟨history, h₀⟩ := hrecord _ reachable_exampleDepositedRegistry
  have hbefore : depositable (exampleDepositedRegistry.operators 1) = 1 := by decide +kernel
  have hdelay : exampleStuckRegistry.stuckPenaltyDelay = 1000 := by decide +kernel
  have hstuck := stuck_exampleStuckRegistry
  have hp₁ := performs_exampleStuckRegistry
  have hp₂ := performs_exampleRefundedRegistry
  refine ⟨hbefore, ?_⟩
  -- only these facts about the registries matter from here on
  generalize exampleStuckRegistry = s₁ at hdelay hstuck hp₁ hp₂
  generalize exampleRefundedRegistry = s₂ at hp₂ ⊢
  obtain ⟨hpenalized, hdepositable⟩ := hlaw _ ((h₀.act hp₁).act hp₂) 1 history ⟨_, _, _⟩
    [⟨_, _, _⟩] (List.append_assoc _ _ _) hstuck
  constructor
  · refine hdepositable fun m' hm' => ?_
    rw [List.mem_singleton] at hm'
    subst hm'
    exact nofun
  · intro env hfrom htill
    refine (hpenalized env hfrom).resolve_right ?_
    rintro ⟨-, before, m', after, hsplit, -, -, hlt⟩
    have hm' : m' ∈ before ++ m' :: after := List.mem_append_right _ List.mem_cons_self
    rw [← hsplit, List.mem_singleton] at hm'
    subst hm'
    have hend : exampleRegistryEnv.timestamp + s₁.stuckPenaltyDelay < env.timestamp := hlt
    have htime : exampleRegistryEnv.timestamp = 100 := rfl
    omega

end NodeOperatorsRegistry

end Catalist
