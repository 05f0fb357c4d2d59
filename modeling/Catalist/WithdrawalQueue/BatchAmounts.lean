import Catalist.WithdrawalQueue.BatchRuns

/-!
# The price of calculated batches

The calculation deducts what the requests are due one by one, `prefinalize` prices the batches as one
position each, and after the finalization the requests are claimed one by one again. `excess` is by
how much the two differ. Calculated batches fit into the budget if what is left of it covers the
excess (`prefinalize_within_budget_iff`), and they lock enough for the claims if there is no negative
excess (`prefinalize_covers_claims_iff`).
-/

namespace Catalist

open Solidity ShareRate Transition Grouping

/-- The filled part of `batches`. -/
def BatchesCalculationState.filled (state : BatchesCalculationState) : List Nat :=
  state.batches.take state.batchesLength

namespace WithdrawalQueue

variable {q q' : WithdrawalQueue} {m T B c k id hint : Nat} {batches : List Nat}
  {state state' : BatchesCalculationState}

/-! ## Calculated states -/

/-- A call of a calculation, with any limit. -/
def CalculationStep (q : WithdrawalQueue) (m T : Nat) (state state' : BatchesCalculationState) : Prop :=
  ∃ limit, q.calculateFinalizationBatches m T limit state = .ok state'

/-- A calculation in one call. -/
theorem calculated_of_call {limit : Nat}
    (h : q.calculateFinalizationBatches m T limit (startState B) = .ok state) :
    Reachable (· = startState B) (q.CalculationStep m T) state := by
  have hstart : Reachable (· = startState B) (q.CalculationStep m T) (startState B) := .init rfl
  exact hstart.step ⟨limit, h⟩

/-- A state between the calls or after them; the requests that have been handled have shares. -/
def CalculatedAt (q : WithdrawalQueue) (m T B k : Nat) (state : BatchesCalculationState) : Prop :=
  ∃ c, q.lastFinalizedRequestId ≤ c ∧ c ≤ k ∧
    (∀ id ∈ Finset.Ioc q.lastFinalizedRequestId c, 0 < q.amountOfShares id) ∧
    (state = q.stateAt m B c false ∨ c = k ∧ state = q.finalState m T B k)

theorem CalculatedAt.step (hc : Counted q) (hk : IsGreatest {c | q.Finalizable m T B c} k)
    (h : q.CalculatedAt m T B k state) (hs : q.CalculationStep m T state state') :
    q.CalculatedAt m T B k state' := by
  obtain ⟨limit, hcall⟩ := hs
  obtain ⟨c, hle, hck, hshares, rfl | ⟨rfl, rfl⟩⟩ := h
  · have hpos : q.lastFinalizedRequestId < c → 0 < q.amountOfShares c := fun hlt =>
      hshares c (Finset.mem_Ioc.mpr ⟨hlt, Nat.le_refl c⟩)
    obtain ⟨-, -, hreads, rfl⟩ := (calculateFinalizationBatches_eq_ok hc hk hle hck hpos).mp hcall
    -- the requests up to the end of the chunk have been read
    have hmore : ∀ e, e ≤ k → e ≤ c + limit → ∀ id ∈ Finset.Ioc q.lastFinalizedRequestId e,
        0 < q.amountOfShares id := by
      intro e hek hlimit id hid
      rw [Finset.mem_Ioc] at hid
      rcases Nat.lt_or_ge c id with hnew | hold
      · exact hreads id hnew (by omega) (by have := hk.1.le_last; omega) (by omega)
          (hk.1.timestamp_le id (Finset.mem_Ioc.mpr (by omega)))
      · exact hshares id (Finset.mem_Ioc.mpr ⟨hid.1, hold⟩)
    by_cases hchunk : c + limit ≤ k ∧ c + limit < q.lastRequestId
    · rw [if_pos hchunk]
      exact ⟨c + limit, by omega, hchunk.1, hmore _ hchunk.1 (Nat.le_refl _), .inl rfl⟩
    · rw [if_neg hchunk]
      have hlast := hk.1.le_last
      exact ⟨k, hk.1.finalized_le, Nat.le_refl k, hmore k (Nat.le_refl k) (by omega),
        .inr ⟨rfl, rfl⟩⟩
  · -- a finished calculation does not go on
    simp [calculateFinalizationBatches, finalState, stateAt] at hcall

/-- A finished calculation has found the longest prefix. -/
theorem calculated_finished (hc : Counted q) (hk : IsGreatest {c | q.Finalizable m T B c} k)
    (h : Reachable (· = startState B) (q.CalculationStep m T) state) (hfinished : state.finished = true) :
    state = q.finalState m T B k ∧
    ∀ id ∈ Finset.Ioc q.lastFinalizedRequestId k, 0 < q.amountOfShares id := by
  have hcalculated : q.CalculatedAt m T B k state := by
    refine h.invariant ?_ fun _ _ hinv hs => hinv.step hc hk hs
    rintro _ rfl
    refine ⟨q.lastFinalizedRequestId, Nat.le_refl _, hk.1.finalized_le, ?_, .inl ?_⟩
    · simp
    · exact (stateAt_start q m B).symm
  obtain ⟨c, -, -, hshares, rfl | ⟨rfl, rfl⟩⟩ := hcalculated
  · cases hfinished
  · exact ⟨rfl, hshares⟩

/-! ## The excess -/

/-- By how much the prices of the batches exceed what the requests are due one by one. -/
def excess (q : WithdrawalQueue) (m : Nat) (batches : List Nat) : ℤ :=
  sum (fun a b => ShareRate.excess E27_PRECISION_BASE m (Finset.Ioc a b) q.amountOfBACE
    q.amountOfShares) q.lastFinalizedRequestId batches

/-- Batches with all requests on one side of `m` have no negative excess. -/
theorem sum_excess_nonneg {prev : Nat} (hasc : Ascending prev batches)
    (hshares : ∀ id ∈ Finset.Ioc prev (batches.getLastD prev), 0 < q.amountOfShares id)
    (hhom : q.Homogeneous m batches prev) :
    0 ≤ sum (fun a b => ShareRate.excess E27_PRECISION_BASE m (Finset.Ioc a b) q.amountOfBACE
      q.amountOfShares) prev batches := by
  induction batches generalizing prev with
  | nil => exact Int.le_refl 0
  | cons e rest ih =>
    obtain ⟨hlt, hrest⟩ := ascending_cons.mp hasc
    obtain ⟨hside, hhomRest⟩ := hhom
    rw [List.getLastD_cons] at hshares
    have hfirst : ∀ id ∈ Finset.Ioc prev e, 0 < q.amountOfShares id := fun id hid =>
      hshares id (Finset.Ioc_subset_Ioc_right hrest.le_last hid)
    have hlater : ∀ id ∈ Finset.Ioc e (rest.getLastD e), 0 < q.amountOfShares id := fun id hid =>
      hshares id (Finset.Ioc_subset_Ioc_left hlt.le hid)
    rw [sum]
    exact Int.add_nonneg (excess_nonneg (Finset.nonempty_Ioc.mpr hlt) hfirst hside)
      (ih hrest hlater hhomRest)

/-- The prices of the batches, from the dues of the requests. -/
theorem Represented.sum_batchPrice (hr : Represented q)
    (h : (q.lastFinalizedRequestId :: batches).IsChain q.IsBatch)
    (hlast : batches.getLastD q.lastFinalizedRequestId ≤ q.lastRequestId) :
    ((sum (q.batchPrice m) q.lastFinalizedRequestId batches : ℕ) : ℤ) =
      q.spent m (batches.getLastD q.lastFinalizedRequestId) + q.excess m batches := by
  have hasc := ascending_of_chain h
  have hprice := hasc.chain (R := fun a b => (q.batchPrice m a b : ℤ) =
      (∑ id ∈ Finset.Ioc a b, (q.dueOf m id : ℤ)) +
        ShareRate.excess E27_PRECISION_BASE m (Finset.Ioc a b) q.amountOfBACE q.amountOfShares)
    fun a b _ hab hb => by
      rw [batchPrice, ← hr.sum_amountOfBACE hab.le (hb.trans hlast),
        ← hr.sum_amountOfShares hab.le (hb.trans hlast)]
      exact due_sum_eq _ _ _
  rw [cast_sum, sum_congr hprice, sum_add, sum_Ioc hasc, spent, Nat.cast_sum]
  rfl

/-! ## The batches of a finished calculation -/

/-- They are batches of the longest prefix, and `prefinalize` accepts them. -/
theorem isChain_batchEnds (hr : Represented q) (hle : q.lastFinalizedRequestId ≤ k)
    (hlast : k ≤ q.lastRequestId)
    (hshares : ∀ id ∈ Finset.Ioc q.lastFinalizedRequestId k, 0 < q.amountOfShares id) :
    (q.lastFinalizedRequestId :: q.batchEnds m k).IsChain q.IsBatch := by
  refine (ascending_ends _ _).chain fun a b ha hab hb => ⟨hab, ?_⟩
  have hbk : b ≤ k := hb.trans_eq (getLastD_batchEnds hle)
  rw [← hr.sum_amountOfShares hab.le (hbk.trans hlast)]
  refine Finset.sum_pos (fun id hid => ?_) (Finset.nonempty_Ioc.mpr hab)
  rw [Finset.mem_Ioc] at hid
  exact hshares id (Finset.mem_Ioc.mpr (by omega))

/-- What `prefinalize` makes of calculated batches. -/
theorem prefinalize_calculated (h : Reachable Initial PositiveStep q)
    (hk : IsGreatest {c | q.Finalizable m T B c} k)
    (hcalculated : Reachable (· = startState B) (q.CalculationStep m T) state)
    (hfinished : state.finished = true) (hne : state.batchesLength ≠ 0) :
    state.filled.getLastD 0 = k ∧ q.lastFinalizedRequestId < k ∧
    (∀ id ∈ Finset.Ioc q.lastFinalizedRequestId k, 0 < q.amountOfShares id) ∧
    (m ≠ 0 → ∃ eth burn, q.prefinalize state.filled m = .ok (eth, burn)) ∧
    ∀ eth burn, q.prefinalize state.filled m = .ok (eth, burn) →
      (eth : ℤ) = q.spent m k + q.excess m (q.batchEnds m k) := by
  have hb := bounded_of_reachable h
  have hr := hb.counted.represented
  obtain ⟨rfl, hshares⟩ := calculated_finished hb.counted hk hcalculated hfinished
  have hle := hk.1.finalized_le
  have hfilled : (q.finalState m T B k).filled = q.batchEnds m k := take_finalState q m T B k
  have hends : q.batchEnds m k ≠ [] := List.ne_nil_of_length_pos (Nat.pos_of_ne_zero hne)
  have hlast : (q.batchEnds m k).getLastD 0 = k := by
    rw [getLastD_of_ne_nil hends 0 q.lastFinalizedRequestId]
    exact getLastD_batchEnds hle
  have hlt : q.lastFinalizedRequestId < k :=
    hle.lt_of_ne fun heq => hends ((batchEnds_eq_nil_iff hle).mpr heq.symm)
  have hchain := isChain_batchEnds (m := m) hr hle hk.1.le_last hshares
  rw [hfilled]
  refine ⟨hlast, hlt, hshares, fun hm => ?_, fun eth burn haccepted => ?_⟩
  · exact ⟨_, _, hb.prefinalize_of hm hends hchain (hlast.trans_le hk.1.le_last)⟩
  · obtain ⟨-, -, rfl, -⟩ := prefinalize_sums haccepted
    have hprices := hr.sum_batchPrice (m := m) hchain ((getLastD_batchEnds hle).trans_le hk.1.le_last)
    rw [getLastD_batchEnds hle] at hprices
    exact hprices

/-! ## The budget -/

/--
**Calculated batches fit into the budget** exactly if what the longest prefix leaves of it covers the
excess of the batches of the prefix.
-/
theorem prefinalize_within_budget_iff (h : Reachable Initial PositiveStep q)
    (hcalculated : Reachable (· = startState B) (q.CalculationStep m T) state)
    (hfinished : state.finished = true) (hne : state.batchesLength ≠ 0) :
    (∃ eth burn, q.prefinalize state.filled m = .ok (eth, burn) ∧ eth ≤ B) ↔
      m ≠ 0 ∧ ∃ k, IsGreatest {c | q.Finalizable m T B c} k ∧
        q.excess m (q.batchEnds m k) ≤ B - q.spent m k := by
  obtain ⟨k, hk⟩ := exists_longest (counted_of_reachable h).represented m T B
  obtain ⟨-, -, -, haccepts, hprice⟩ := prefinalize_calculated h hk hcalculated hfinished hne
  constructor
  · rintro ⟨eth, burn, haccepted, hle⟩
    have heth := hprice eth burn haccepted
    exact ⟨(prefinalize_ok_cases haccepted).1, k, hk, by omega⟩
  · rintro ⟨hm, k', hk', hexcess⟩
    obtain rfl : k' = k := hk'.unique hk
    obtain ⟨eth, burn, haccepted⟩ := haccepts hm
    have heth := hprice eth burn haccepted
    exact ⟨eth, burn, haccepted, by omega⟩

def exampleFourState : BatchesCalculationState :=
  result (exampleFour.calculateFinalizationBatches (15 * 10 ^ 26) 1 4 (startState 500))
    (by decide +kernel)

theorem calculated_exampleFourState :
    Reachable (· = startState 500) (exampleFour.CalculationStep (15 * 10 ^ 26) 1) exampleFourState :=
  calculated_of_call (eq_ok_result _ (by decide +kernel))

/-- The first two are priced 303 as a batch, one more than one by one; 98 of the budget are left. -/
theorem prefinalize_within_budget_iff_four : exampleFourState.filled = [2, 3] ∧ ∃ eth burn,
    exampleFour.prefinalize exampleFourState.filled (15 * 10 ^ 26) = .ok (eth, burn) ∧ eth ≤ 500 :=
  ⟨by decide +kernel,
    (prefinalize_within_budget_iff reachable_exampleFour calculated_exampleFourState
      (by decide +kernel) (by decide +kernel)).mpr
      ⟨by decide, 3, isGreatest_exampleFour, by decide +kernel⟩⟩

/-- Two requests of 153 with 101 shares. At the rate 1.5 each is due 151 and a half. -/
def exampleHalves : WithdrawalQueue :=
  result (exampleRequested [(0, 153, 101), (0, 153, 101)] exampleEmpty) (by decide +kernel)

theorem reachable_exampleHalves : Reachable Initial PositiveStep exampleHalves :=
  reachable_exampleRequested reachable_exampleEmpty (by decide) (eq_ok_result _ (by decide +kernel))

def exampleHalvesState : BatchesCalculationState :=
  result (exampleHalves.calculateFinalizationBatches (15 * 10 ^ 26) 1 2 (startState 302))
    (by decide +kernel)

/-- A budget of 302 is enough for the requests one by one, but not for the batch, which is priced 303. -/
theorem not_prefinalize_within_budget : ¬ ∀ (q : WithdrawalQueue) (m T B : Nat)
    (state : BatchesCalculationState), Reachable Initial PositiveStep q →
    Reachable (· = startState B) (q.CalculationStep m T) state → state.finished = true →
    state.batchesLength ≠ 0 →
    ∃ eth burn, q.prefinalize state.filled m = .ok (eth, burn) ∧ eth ≤ B := by
  intro hall
  have hcalculated : Reachable (· = startState 302) (exampleHalves.CalculationStep (15 * 10 ^ 26) 1)
      exampleHalvesState := calculated_of_call (eq_ok_result _ (by decide +kernel))
  obtain ⟨eth, burn, haccepted, hle⟩ := hall exampleHalves (15 * 10 ^ 26) 1 302 exampleHalvesState
    reachable_exampleHalves hcalculated (by decide +kernel) (by decide +kernel)
  have hprice : exampleHalves.prefinalize exampleHalvesState.filled (15 * 10 ^ 26) = .ok (303, 202) := by
    decide +kernel
  rw [hprice, Except.ok.injEq, Prod.mk.injEq] at haccepted
  omega

/-! ## The claims -/

theorem batchPrice_pred (q : WithdrawalQueue) (m id : Nat) :
    q.batchPrice m (id - 1) id = q.dueOf m id := rfl

/-- A request of a queue with the same sums, claimed with a valid hint. -/
theorem Represented.calculateClaimableAce_of (hr : Represented q) (hqueue : q'.queue = q.queue)
    (hpos : 0 < id) (hle : id ≤ q.lastRequestId) (hshares : 0 < q.amountOfShares id)
    (hvalid : q'.ValidHint id hint) :
    q'.calculateClaimableAce id hint = .ok (q.dueOf (q'.checkpoints hint).maxShareRate id) := by
  have hbatch := hr.calcBatch_of (⟨by omega, hshares⟩ : q.IsBatch (id - 1) id) hle
  have hprice := batchAce_of_bound (q'.checkpoints hint).maxShareRate (q.batchShares (id - 1) id)
    (hr.batchBACE_lt (id - 1) hle)
  obtain ⟨hzero, hlast, hfrom, hnext⟩ := hvalid
  unfold calculateClaimableAce
  rw [require_of hzero, ok_bind, require_of hlast, ok_bind]
  simp only
  rw [require_of hfrom, ok_bind, require_of hnext, ok_bind, checkedSub_of hpos, ok_bind, hqueue, hbatch,
    ok_bind, hprice, ← batchPrice_pred, batchPrice]

/--
What `prefinalize` returns is at least what the requests of the batches can claim after a finalization
with this amount and rate.
-/
def LocksEnough (q : WithdrawalQueue) (m : Nat) (batches : List Nat) : Prop :=
  ∃ (eth burn : Nat) (q' : WithdrawalQueue) (amount : Nat → Nat),
    q.prefinalize batches m = .ok (eth, burn) ∧
    q.finalizeInternal (batches.getLastD 0) eth m = .ok q' ∧
    (∀ id ∈ Finset.Ioc q.lastFinalizedRequestId (batches.getLastD 0),
      q'.calculateClaimableAce id q'.lastCheckpointIndex = .ok (amount id)) ∧
    ∑ id ∈ Finset.Ioc q.lastFinalizedRequestId (batches.getLastD 0), amount id ≤ eth

/-- After `_finalize` the newly finalized requests can claim what they are due by themselves. -/
theorem Represented.claimable_of_finalizeInternal (hr : Represented q) {last amount : Nat}
    (h : q.finalizeInternal last amount m = .ok q')
    (hshares : ∀ id ∈ Finset.Ioc q.lastFinalizedRequestId last, 0 < q.amountOfShares id) :
    ∀ id ∈ Finset.Ioc q.lastFinalizedRequestId last,
      q'.calculateClaimableAce id q'.lastCheckpointIndex = .ok (q.dueOf m id) := by
  intro id hid
  have hpos := hshares id hid
  rw [Finset.mem_Ioc] at hid
  have hvalid := (validHint_of_finalizeInternal h id).mpr hid.1
  obtain ⟨hle, -, hq'⟩ := finalizeInternal_ok_cases h
  have hqueue : q'.queue = q.queue := by rw [hq']
  have hrate : (q'.checkpoints q'.lastCheckpointIndex).maxShareRate = m := by
    rw [hq']
    simp
  rw [hr.calculateClaimableAce_of hqueue (by omega) (hid.2.trans hle) hpos hvalid, hrate]

/--
**Calculated batches lock enough for all claims** exactly if the excess of the batches of the longest
prefix is not negative.
-/
theorem prefinalize_covers_claims_iff (h : Reachable Initial PositiveStep q) (hm : 0 < m)
    (hcalculated : Reachable (· = startState B) (q.CalculationStep m T) state)
    (hfinished : state.finished = true) (hne : state.batchesLength ≠ 0) :
    q.LocksEnough m state.filled ↔
      ∃ k, IsGreatest {c | q.Finalizable m T B c} k ∧ 0 ≤ q.excess m (q.batchEnds m k) := by
  have hb := bounded_of_reachable h
  have hr := hb.counted.represented
  obtain ⟨k, hk⟩ := exists_longest hr m T B
  obtain ⟨hlast, hlt, hshares, haccepts, hprice⟩ :=
    prefinalize_calculated h hk hcalculated hfinished hne
  rw [LocksEnough, hlast]
  constructor
  · rintro ⟨eth, burn, q', amount, haccepted, hfinalize, hclaims, hsum⟩
    have heth := hprice eth burn haccepted
    have hdues := hr.claimable_of_finalizeInternal hfinalize hshares
    have hamounts : ∑ id ∈ Finset.Ioc q.lastFinalizedRequestId k, amount id = q.spent m k :=
      Finset.sum_congr rfl fun id hid => Except.ok.inj ((hclaims id hid).symm.trans (hdues id hid))
    exact ⟨k, hk, by omega⟩
  · rintro ⟨k', hk', hexcess⟩
    obtain rfl : k' = k := hk'.unique hk
    obtain ⟨eth, burn, haccepted⟩ := haccepts hm.ne'
    have heth := hprice eth burn haccepted
    obtain ⟨-, -, hbound, -⟩ := prefinalize_bounds hr haccepted
    rw [hlast] at hbound
    obtain ⟨q', hfinalize⟩ := hb.finalizeInternal_of (m := m) hlt hk.1.le_last hbound
    have hdues := hr.claimable_of_finalizeInternal hfinalize hshares
    have hsum : q.spent m k' ≤ eth := by omega
    exact ⟨eth, burn, q', q.dueOf m, haccepted, hfinalize, hdues, hsum⟩

theorem prefinalize_covers_claims_iff_four :
    exampleFour.excess (15 * 10 ^ 26) [2, 3] = 1 ∧
      exampleFour.LocksEnough (15 * 10 ^ 26) exampleFourState.filled :=
  ⟨by decide +kernel,
    (prefinalize_covers_claims_iff reachable_exampleFour (by decide) calculated_exampleFourState
      (by decide +kernel) (by decide +kernel)).mpr ⟨3, isGreatest_exampleFour, by decide +kernel⟩⟩

/--
Two requests under one report, each with one more than its shares. The rate of the first is rounded
down to `10 ^ 27 + 10 ^ 7`, that of the second is above.
-/
def exampleRounded : WithdrawalQueue :=
  result (exampleRequested [(0, 10 ^ 20 - 10 ^ 10 + 1, 10 ^ 20 - 10 ^ 10), (0, 10 ^ 9 + 1, 10 ^ 9)]
    exampleEmpty) (by decide +kernel)

theorem reachable_exampleRounded : Reachable Initial PositiveStep exampleRounded :=
  reachable_exampleRequested reachable_exampleEmpty (by decide) (eq_ok_result _ (by decide +kernel))

def exampleRoundedState : BatchesCalculationState :=
  result (exampleRounded.calculateFinalizationBatches (10 ^ 27 + 10 ^ 7) 1 2 (startState (10 ^ 21)))
    (by decide +kernel)

def exampleRoundedFinalized : WithdrawalQueue :=
  result (exampleRounded.finalizeInternal 2 (10 ^ 20 - 10 ^ 10 + 10 ^ 9) (10 ^ 27 + 10 ^ 7))
    (by decide +kernel)

/-- Both are discounted in one batch, but the first can claim its whole amount. -/
theorem not_prefinalize_covers_claims : ¬ ∀ (q : WithdrawalQueue) (m T B : Nat)
    (state : BatchesCalculationState), Reachable Initial PositiveStep q → 0 < m →
    Reachable (· = startState B) (q.CalculationStep m T) state → state.finished = true →
    state.batchesLength ≠ 0 → q.LocksEnough m state.filled := by
  intro hall
  have hcalculated : Reachable (· = startState (10 ^ 21))
      (exampleRounded.CalculationStep (10 ^ 27 + 10 ^ 7) 1) exampleRoundedState :=
    calculated_of_call (eq_ok_result _ (by decide +kernel))
  obtain ⟨eth, burn, q', amount, haccepted, hfinalize, hclaims, hsum⟩ := hall exampleRounded
    (10 ^ 27 + 10 ^ 7) 1 (10 ^ 21) exampleRoundedState reachable_exampleRounded (by decide) hcalculated
    (by decide +kernel) (by decide +kernel)
  have hfilled : exampleRoundedState.filled = [2] := by decide +kernel
  have hprice : exampleRounded.prefinalize [2] (10 ^ 27 + 10 ^ 7) =
      .ok (10 ^ 20 - 10 ^ 10 + 10 ^ 9, 10 ^ 20 - 10 ^ 10 + 10 ^ 9) := by decide +kernel
  rw [hfilled] at haccepted hfinalize hclaims hsum
  rw [hprice, Except.ok.injEq, Prod.mk.injEq] at haccepted
  obtain ⟨rfl, rfl⟩ := haccepted
  have hq' : exampleRoundedFinalized = q' :=
    Except.ok.inj ((eq_ok_result _ (by decide +kernel)).symm.trans hfinalize)
  subst hq'
  have hfirst : exampleRoundedFinalized.calculateClaimableAce 1
      exampleRoundedFinalized.lastCheckpointIndex = .ok (10 ^ 20 - 10 ^ 10 + 1) := by decide +kernel
  have hsecond : exampleRoundedFinalized.calculateClaimableAce 2
      exampleRoundedFinalized.lastCheckpointIndex = .ok (10 ^ 9) := by decide +kernel
  have hone := Except.ok.inj (hfirst.symm.trans (hclaims 1 (by decide +kernel)))
  have htwo := Except.ok.inj (hsecond.symm.trans (hclaims 2 (by decide +kernel)))
  have htotal : ∑ id ∈ Finset.Ioc exampleRounded.lastFinalizedRequestId ([2].getLastD 0), amount id
      = amount 1 + amount 2 := by
    have hrange : Finset.Ioc exampleRounded.lastFinalizedRequestId ([2].getLastD 0) = {1, 2} := by
      decide +kernel
    rw [hrange, Finset.sum_pair (by decide)]
  rw [htotal, ← hone, ← htwo] at hsum
  exact absurd hsum (by decide)

end WithdrawalQueue

end Catalist
