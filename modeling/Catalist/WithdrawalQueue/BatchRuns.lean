import Catalist.WithdrawalQueue.Batches
import Catalist.Lib.Loop
import Mathlib.Order.Lattice.Nat

/-!
# Calculations in one call and in several

One call that may handle the whole queue takes the longest prefix of requests that fits
(`calculateFinalizationBatches_greedy_iff`). Several calls with smaller limits take the same one,
unless one of them ends when the budget is used up exactly (`calculateFinalizationBatches_chunked_iff`).
-/

namespace Catalist

open Solidity ShareRate Transition Grouping

namespace WithdrawalQueue

variable {q : WithdrawalQueue} {m T B k limit : Nat} {limits : Nat → Nat}

/-! ## One call -/

theorem stateAt_start (q : WithdrawalQueue) (m B : Nat) :
    q.stateAt m B q.lastFinalizedRequestId false = startState B := by
  simp [stateAt, startState, spent, batchEnds, ends, padded]

/-- There is a longest prefix, if only the empty one. -/
theorem exists_longest (hr : Represented q) (m T B : Nat) :
    ∃ k, IsGreatest {c | q.Finalizable m T B c} k := by
  have hempty : q.Finalizable m T B q.lastFinalizedRequestId := by
    refine ⟨Nat.le_refl _, hr.finalized_le, ?_, ?_, ?_⟩
    · simp
    · simp [spent]
    · simp [batchEnds, ends]
  have hbounded : BddAbove {c | q.Finalizable m T B c} := ⟨q.lastRequestId, fun c hc => hc.le_last⟩
  exact ⟨_, Nat.sSup_mem ⟨_, hempty⟩ hbounded, fun c hc => le_csSup hbounded hc⟩

/-- The requests that a calculation comes to all have shares. -/
def ReadsShares (q : WithdrawalQueue) (T k : Nat) : Prop :=
  ∀ id, q.lastFinalizedRequestId < id → id ≤ q.lastRequestId → id ≤ k + 1 →
    (q.queue id).timestamp ≤ T → 0 < q.amountOfShares id

/-- A single call for the whole queue. -/
theorem calculateFinalizationBatches_whole_eq_ok (hc : Counted q)
    (hk : IsGreatest {c | q.Finalizable m T B c} k) (hbudget : 0 < B)
    (hlimit : q.lastRequestId - q.lastFinalizedRequestId ≤ limit)
    {state : BatchesCalculationState} :
    q.calculateFinalizationBatches m T limit (startState B) = .ok state ↔
      q.lastFinalizedRequestId + 1 + limit < 2 ^ 256 ∧ q.ReadsShares T k ∧
      state = q.finalState m T B k := by
  have hle := hk.1.finalized_le
  have hspent : q.spent m q.lastFinalizedRequestId ≠ B := by
    rw [spent, Finset.Ioc_self, Finset.sum_empty]
    exact hbudget.ne
  rw [← stateAt_start q m B, calculateFinalizationBatches_eq_ok hc hk (Nat.le_refl _) hle
    fun hlt => absurd hlt (Nat.lt_irrefl _), if_neg (by omega)]
  constructor
  · rintro ⟨-, hfits, hreads, rfl⟩
    exact ⟨hfits, fun id hid hidle => hreads id hid (by omega) hidle, rfl⟩
  · rintro ⟨hfits, hreads, rfl⟩
    exact ⟨hspent, hfits, fun id hid _ hidle => hreads id hid hidle, rfl⟩

/--
A calculation in one call takes the longest prefix, and what it returns as the rest of the budget is
what the prefix has left.
-/
def GreedyWithRemainder (q : WithdrawalQueue) (m T B limit : Nat) : Prop :=
  ∃ state k, q.calculateFinalizationBatches m T limit (startState B) = .ok state ∧
    state.finished = true ∧ IsGreatest {c | q.Finalizable m T B c} k ∧
    state.batches.take state.batchesLength = q.batchEnds m k ∧
    state.remainingAceBudget + q.spent m k = B

theorem take_finalState (q : WithdrawalQueue) (m T B k : Nat) :
    (q.finalState m T B k).batches.take (q.finalState m T B k).batchesLength = q.batchEnds m k :=
  List.take_left

/--
**The remainder is exact except after the break at the number of batches.** The request that does not
get a batch has been deducted from the budget before.
-/
theorem calculateFinalizationBatches_greedy_iff (h : Reachable Initial PositiveStep q) (hbudget : 0 < B)
    (hlimit : q.lastRequestId - q.lastFinalizedRequestId ≤ limit) :
    q.GreedyWithRemainder m T B limit ↔
      q.lastFinalizedRequestId + 1 + limit < 2 ^ 256 ∧
      ∃ k, IsGreatest {c | q.Finalizable m T B c} k ∧ q.ReadsShares T k ∧
        (q.Overshoots m T B k → q.dueOf m (k + 1) = 0) := by
  have hc := counted_of_reachable h
  obtain ⟨k, hk⟩ := exists_longest hc.represented m T B
  have hcall := fun state => @calculateFinalizationBatches_whole_eq_ok q m T B k limit hc hk hbudget
    hlimit state
  have hsucc := spent_succ (m := m) hk.1.finalized_le
  have hspent := hk.1.spent_le
  -- the remainder of the budget is what the last deducted request has left
  have hremainder : (q.finalState m T B k).remainingAceBudget + q.spent m k = B ↔
      (q.Overshoots m T B k → q.dueOf m (k + 1) = 0) := by
    by_cases hover : q.Overshoots m T B k
    · have hfits := hover.2.2
      have hlast : q.lastDeducted m T B k = k + 1 := if_pos hover
      simp only [finalState, hlast, hover, true_imp_iff]
      omega
    · have hlast : q.lastDeducted m T B k = k := if_neg hover
      simp only [finalState, hlast, hover, false_imp_iff, iff_true]
      omega
  constructor
  · rintro ⟨state, k', hok, -, hk', -, hrest⟩
    obtain rfl : k' = k := hk'.unique hk
    obtain ⟨hfits, hreads, rfl⟩ := (hcall state).mp hok
    exact ⟨hfits, k', hk', hreads, hremainder.mp hrest⟩
  · rintro ⟨hfits, k', hk', hreads, hrest⟩
    obtain rfl : k' = k := hk'.unique hk
    exact ⟨_, k', (hcall _).mpr ⟨hfits, hreads, rfl⟩, rfl, hk', take_finalState q m T B k',
      hremainder.mpr hrest⟩

/-! Queues for examples are made of requests with the report before them, their amount and shares. -/

def exampleRequested : List (Nat × Nat × Nat) → WithdrawalQueue → Call QueueError WithdrawalQueue
  | [], q => return q
  | (report, bACE, shares) :: requests, q => do
    let (q, _) ← { q with lastReportTimestamp := report }.enqueue (exampleHintEnv 0) bACE shares 7
    exampleRequested requests q

theorem reachable_exampleRequested {q' : WithdrawalQueue} {requests : List (Nat × Nat × Nat)}
    (h : Reachable Initial PositiveStep q) (hpos : ∀ r ∈ requests, 0 < r.2.1)
    (hok : exampleRequested requests q = .ok q') : Reachable Initial PositiveStep q' := by
  induction requests generalizing q with
  | nil =>
    rw [exampleRequested, pure_eq_ok] at hok
    exact hok ▸ h
  | cons r requests ih =>
    rw [exampleRequested, bind_eq_ok] at hok
    obtain ⟨⟨q₁, id⟩, hrequest, hrest⟩ := hok
    have hreport := h.step (@StepUnder.other positiveRules q q.tokenApprovals q.operatorApprovals
      q.resumeSinceTimestamp r.1 q.hasRole 0)
    have henqueue := hreport.step (.enqueue (hpos r List.mem_cons_self) hrequest)
    exact ih henqueue (fun r hr => hpos r (List.mem_cons_of_mem _ hr)) hrest

def exampleEmpty : WithdrawalQueue := exampleUnhinted.initializeQueue (exampleHintEnv 0)

theorem reachable_exampleEmpty : Reachable Initial PositiveStep exampleEmpty :=
  .init ⟨exampleUnhinted, exampleHintEnv 0, ⟨rfl, rfl, rfl, rfl, fun _ => rfl⟩, rfl⟩

/--
Two requests of 153 with 101 shares under one report, then two at the rate 1 under the next. At the
rate 1.5 the first two are due 151 and a half each. The last does not fit into a budget of 500.
-/
def exampleFour : WithdrawalQueue :=
  result (exampleRequested [(0, 153, 101), (0, 153, 101), (1, 100, 100), (1, 200, 200)] exampleEmpty)
    (by decide +kernel)

theorem reachable_exampleFour : Reachable Initial PositiveStep exampleFour :=
  reachable_exampleRequested reachable_exampleEmpty (by decide) (eq_ok_result _ (by decide +kernel))

theorem isGreatest_exampleFour :
    IsGreatest {c | exampleFour.Finalizable (15 * 10 ^ 26) 1 500 c} 3 := by
  constructor
  · exact ⟨by decide +kernel, by decide +kernel, by decide +kernel, by decide +kernel,
      by decide +kernel⟩
  · intro c hc
    have hle : c ≤ 4 := hc.le_last
    have hspent : ¬ exampleFour.spent (15 * 10 ^ 26) 4 ≤ 500 := by decide +kernel
    by_contra hlt
    obtain rfl : c = 4 := by omega
    exact hspent hc.spent_le

theorem calculateFinalizationBatches_greedy_iff_four :
    exampleFour.GreedyWithRemainder (15 * 10 ^ 26) 1 500 4 := by
  refine (calculateFinalizationBatches_greedy_iff reachable_exampleFour (by decide)
    (by decide +kernel)).mpr ⟨by decide +kernel, 3, isGreatest_exampleFour, ?_, ?_⟩
  · have hshares : ∀ id ∈ Finset.Ioc 0 4, 0 < exampleFour.amountOfShares id := by decide +kernel
    intro id hid hidle _ _
    exact hshares id (Finset.mem_Ioc.mpr ⟨hid, hidle⟩)
  · intro hover
    have hfits : ¬ exampleFour.spent (15 * 10 ^ 26) 4 ≤ 500 := by decide +kernel
    exact absurd hover.2.2 hfits

/-- Requests that are by turns at the rate 1 and at the rate 2, each under its own report. -/
def exampleMixedRequests : List (Nat × Nat × Nat) :=
  (List.range 37).map fun i => (i, 100 + 100 * (i % 2), 100)

def exampleMixed : WithdrawalQueue :=
  result (exampleRequested exampleMixedRequests exampleEmpty) (by decide +kernel)

theorem reachable_exampleMixed : Reachable Initial PositiveStep exampleMixed :=
  reachable_exampleRequested reachable_exampleEmpty (by decide) (eq_ok_result _ (by decide +kernel))

/-- The 37th request gets no batch, but its 100 are missing in the budget. -/
theorem not_calculateFinalizationBatches_greedy : ¬ ∀ (q : WithdrawalQueue) (m T B limit : Nat),
    Reachable Initial PositiveStep q → 0 < B →
    q.lastRequestId - q.lastFinalizedRequestId ≤ limit → q.GreedyWithRemainder m T B limit := by
  intro hall
  obtain ⟨state, k, hok, -, hk, hends, hrest⟩ := hall exampleMixed (10 ^ 27) 1 1000000 37
    reachable_exampleMixed (by decide) (by decide +kernel)
  have hcall : exampleMixed.calculateFinalizationBatches (10 ^ 27) 1 37 (startState 1000000) =
      .ok ⟨1000000 - 3700, true, List.range' 1 36, 36⟩ := by decide +kernel
  rw [hcall, Except.ok.injEq] at hok
  subst hok
  have hlast := getLastD_batchEnds (m := 10 ^ 27) hk.1.finalized_le
  rw [← hends] at hlast
  have hk36 : k = 36 := hlast.symm.trans (by decide +kernel)
  rw [hk36] at hrest
  exact absurd hrest (by decide +kernel)

/-! ## Several calls -/

/-- One call of a chunked calculation, with the next limit. -/
def nextChunk (q : WithdrawalQueue) (m T : Nat) (limits : Nat → Nat) :
    Nat × BatchesCalculationState → Call QueueError (Nat × BatchesCalculationState)
  | (j, state) => do
    let state ← q.calculateFinalizationBatches m T (limits j) state
    return (j + 1, state)

/-- The last request before the `j`-th chunk. -/
def chunkStart (q : WithdrawalQueue) (limits : Nat → Nat) (j : Nat) : Nat :=
  q.lastFinalizedRequestId + ∑ i ∈ Finset.range j, limits i

theorem chunkStart_zero : q.chunkStart limits 0 = q.lastFinalizedRequestId := rfl

theorem chunkStart_succ (q : WithdrawalQueue) (limits : Nat → Nat) (j : Nat) :
    q.chunkStart limits (j + 1) = q.chunkStart limits j + limits j := by
  rw [chunkStart, chunkStart, Finset.sum_range_succ, Nat.add_assoc]

theorem chunkStart_mono (q : WithdrawalQueue) (limits : Nat → Nat) {i j : Nat} (hij : i ≤ j) :
    q.chunkStart limits i ≤ q.chunkStart limits j :=
  Nat.add_le_add_left (Finset.sum_le_sum_of_subset (Finset.range_mono hij)) _

theorem le_chunkStart (q : WithdrawalQueue) (limits : Nat → Nat) (j : Nat) :
    q.lastFinalizedRequestId ≤ q.chunkStart limits j :=
  Nat.le_add_right _ _

/-- There is a `j`-th chunk: the calculation is not finished before. -/
def HasChunk (q : WithdrawalQueue) (limits : Nat → Nat) (k j : Nat) : Prop :=
  q.chunkStart limits j ≤ k ∧ (j = 0 ∨ q.chunkStart limits j < q.lastRequestId)

/-- Calls with any limits lead to the state that one call for the whole queue returns. -/
def ChunkedAsWhole (q : WithdrawalQueue) (m T B : Nat) (limits : Nat → Nat) : Prop :=
  ∃ j final, Runs (fun s => s.2.finished = false) (q.nextChunk m T limits) (0, startState B) (j, final) ∧
    ∀ limit, q.lastRequestId - q.lastFinalizedRequestId ≤ limit →
      q.lastFinalizedRequestId + 1 + limit < 2 ^ 256 →
      q.calculateFinalizationBatches m T limit (startState B) = .ok final

/-- One call of a chunked calculation. -/
theorem nextChunk_eq_ok (hc : Counted q) (hk : IsGreatest {c | q.Finalizable m T B c} k) {j : Nat}
    (hj : q.HasChunk limits k j)
    (hpos : q.lastFinalizedRequestId < q.chunkStart limits j →
      0 < q.amountOfShares (q.chunkStart limits j)) {s : Nat × BatchesCalculationState} :
    q.nextChunk m T limits (j, q.stateAt m B (q.chunkStart limits j) false) = .ok s ↔
      q.spent m (q.chunkStart limits j) ≠ B ∧ q.chunkStart limits j + 1 + limits j < 2 ^ 256 ∧
      (∀ id, q.chunkStart limits j < id → id ≤ q.chunkStart limits (j + 1) → id ≤ q.lastRequestId →
        id ≤ k + 1 → (q.queue id).timestamp ≤ T → 0 < q.amountOfShares id) ∧
      s = (j + 1, if q.chunkStart limits (j + 1) ≤ k ∧ q.chunkStart limits (j + 1) < q.lastRequestId
        then q.stateAt m B (q.chunkStart limits (j + 1)) false else q.finalState m T B k) := by
  rw [nextChunk, bind_eq_ok, chunkStart_succ]
  constructor
  · rintro ⟨state, hcall, hs⟩
    obtain ⟨hspent, hfits, hreads, rfl⟩ :=
      (calculateFinalizationBatches_eq_ok hc hk (le_chunkStart q limits j) hj.1 hpos).mp hcall
    exact ⟨hspent, hfits, hreads, (pure_eq_ok.mp hs).symm⟩
  · rintro ⟨hspent, hfits, hreads, rfl⟩
    exact ⟨_, (calculateFinalizationBatches_eq_ok hc hk (le_chunkStart q limits j) hj.1 hpos).mpr
      ⟨hspent, hfits, hreads, rfl⟩, rfl⟩

/-- The chunks after the `j`-th lead to the end if none of them starts with the budget used up. -/
theorem runs_nextChunk (hc : Counted q) (hk : IsGreatest {c | q.Finalizable m T B c} k)
    (hlimits : ∀ j, 0 < limits j) (hreads : q.ReadsShares T k)
    (hchunks : ∀ j, q.HasChunk limits k j →
      q.spent m (q.chunkStart limits j) ≠ B ∧ q.chunkStart limits j + 1 + limits j < 2 ^ 256)
    {j : Nat} (hj : q.HasChunk limits k j) :
    ∃ j', Runs (fun s => s.2.finished = false) (q.nextChunk m T limits)
      (j, q.stateAt m B (q.chunkStart limits j) false) (j', q.finalState m T B k) := by
  induction hn : k - q.chunkStart limits j using Nat.strong_induction_on generalizing j with
  | _ n ih =>
    obtain ⟨hspent, hfits⟩ := hchunks j hj
    have hle := le_chunkStart q limits j
    have hsucc := chunkStart_succ q limits j
    have hgrow := hlimits j
    have hlast := hk.1.le_last
    have htime := hk.1.timestamp_le
    have hstart := hj.1
    have hpos : q.lastFinalizedRequestId < q.chunkStart limits j →
        0 < q.amountOfShares (q.chunkStart limits j) := fun hlt =>
      hreads _ hlt (by omega) (by omega) (htime _ (Finset.mem_Ioc.mpr ⟨hlt, hstart⟩))
    have hcall := (nextChunk_eq_ok hc hk hj hpos).mpr
      ⟨hspent, hfits, fun id hid _ => hreads id (by omega), rfl⟩
    by_cases hnext : q.chunkStart limits (j + 1) ≤ k ∧ q.chunkStart limits (j + 1) < q.lastRequestId
    · rw [if_pos hnext] at hcall
      obtain ⟨j', hruns⟩ := ih (k - q.chunkStart limits (j + 1)) (by omega) ⟨hnext.1, .inr hnext.2⟩ rfl
      exact ⟨j', .round rfl hcall hruns⟩
    · rw [if_neg hnext] at hcall
      exact ⟨j + 1, .round rfl hcall (.done (by simp [finalState, stateAt]))⟩

/-- What has been checked in the chunks after the `j`-th, if they lead to an end. -/
theorem of_runs_nextChunk (hc : Counted q) (hk : IsGreatest {c | q.Finalizable m T B c} k)
    {s s' : Nat × BatchesCalculationState}
    (hruns : Runs (fun s => s.2.finished = false) (q.nextChunk m T limits) s s')
    {j : Nat} (hs : s = (j, q.stateAt m B (q.chunkStart limits j) false)) (hj : q.HasChunk limits k j)
    (hpos : q.lastFinalizedRequestId < q.chunkStart limits j →
      0 < q.amountOfShares (q.chunkStart limits j)) :
    (∀ id, q.chunkStart limits j < id → id ≤ q.lastRequestId → id ≤ k + 1 →
      (q.queue id).timestamp ≤ T → 0 < q.amountOfShares id) ∧
    ∀ i, j ≤ i → q.HasChunk limits k i →
      q.spent m (q.chunkStart limits i) ≠ B ∧ q.chunkStart limits i + 1 + limits i < 2 ^ 256 := by
  induction hruns generalizing j with
  | done hfinished =>
    subst hs
    exact absurd rfl hfinished
  | round _ hcall _ ih =>
    subst hs
    obtain ⟨hspent, hfits, hreads, rfl⟩ := (nextChunk_eq_ok hc hk hj hpos).mp hcall
    have hlast := hk.1.le_last
    by_cases hnext : q.chunkStart limits (j + 1) ≤ k ∧ q.chunkStart limits (j + 1) < q.lastRequestId
    · rw [if_pos hnext] at ih
      have hmono := chunkStart_mono q limits (Nat.le_succ j)
      have hposNext : q.lastFinalizedRequestId < q.chunkStart limits (j + 1) →
          0 < q.amountOfShares (q.chunkStart limits (j + 1)) := by
        intro hlt
        rcases hmono.lt_or_eq with hgrow | hsame
        · exact hreads _ hgrow (Nat.le_refl _) hnext.2.le (by omega)
            (hk.1.timestamp_le _ (Finset.mem_Ioc.mpr ⟨hlt, hnext.1⟩))
        · exact hsame ▸ hpos (hsame ▸ hlt)
      obtain ⟨hrest, hchunks⟩ := ih rfl ⟨hnext.1, .inr hnext.2⟩ hposNext
      refine ⟨fun id hid hidle => ?_, fun i hi hchunk => ?_⟩
      · rcases Nat.lt_or_ge (q.chunkStart limits (j + 1)) id with hlater | hnow
        · exact hrest id hlater hidle
        · exact hreads id hid hnow hidle
      · rcases hi.lt_or_eq with hlater | rfl
        · exact hchunks i hlater hchunk
        · exact ⟨hspent, hfits⟩
    · -- the calculation ends here, and there is no further chunk
      have hend : q.lastRequestId ≤ q.chunkStart limits (j + 1) ∨ k + 1 ≤ q.chunkStart limits (j + 1) := by
        omega
      refine ⟨fun id hid hidle hidk => hreads id hid (by omega) hidle hidk, fun i hi hchunk => ?_⟩
      rcases hi.lt_or_eq with hlater | rfl
      · have hmono := chunkStart_mono q limits (Nat.succ_le_of_lt hlater)
        obtain ⟨hstart, hsome⟩ := hchunk
        rcases hsome with rfl | hsome
        · exact absurd hlater (Nat.not_lt_zero j)
        · exact absurd ⟨(hmono.trans hstart), hmono.trans_lt hsome⟩ hnext
      · exact ⟨hspent, hfits⟩

/--
**Chunks agree with the whole unless one ends with the budget used up.** The next call takes a state
without budget for an invalid one.
-/
theorem calculateFinalizationBatches_chunked_iff (h : Reachable Initial PositiveStep q)
    (hbudget : 0 < B) (hlimits : ∀ j, 0 < limits j) :
    q.ChunkedAsWhole m T B limits ↔
      ∃ k, IsGreatest {c | q.Finalizable m T B c} k ∧ q.ReadsShares T k ∧
        ∀ j, q.HasChunk limits k j →
          q.spent m (q.chunkStart limits j) ≠ B ∧ q.chunkStart limits j + 1 + limits j < 2 ^ 256 := by
  have hc := counted_of_reachable h
  obtain ⟨k, hk⟩ := exists_longest hc.represented m T B
  have hfirst : q.HasChunk limits k 0 := ⟨hk.1.finalized_le, .inl rfl⟩
  have hstart : (0, startState B) = (0, q.stateAt m B (q.chunkStart limits 0) false) := by
    rw [chunkStart_zero, stateAt_start]
  constructor
  · rintro ⟨j, final, hruns, -⟩
    obtain ⟨hreads, hchunks⟩ := of_runs_nextChunk hc hk hruns hstart hfirst
      fun hlt => absurd hlt (Nat.lt_irrefl _)
    exact ⟨k, hk, hreads, fun j => hchunks j (Nat.zero_le j)⟩
  · rintro ⟨k', hk', hreads, hchunks⟩
    obtain rfl : k' = k := hk'.unique hk
    obtain ⟨j, hruns⟩ := runs_nextChunk hc hk' hlimits hreads hchunks hfirst
    refine ⟨j, _, hstart ▸ hruns, fun limit hlimit hfits => ?_⟩
    exact (calculateFinalizationBatches_whole_eq_ok hc hk' hbudget hlimit).mpr ⟨hfits, hreads, rfl⟩

/-- Two requests of 100 with 100 shares. -/
def exampleTwo : WithdrawalQueue :=
  result (exampleRequested [(0, 100, 100), (1, 100, 100)] exampleEmpty) (by decide +kernel)

theorem reachable_exampleTwo : Reachable Initial PositiveStep exampleTwo :=
  reachable_exampleRequested reachable_exampleEmpty (by decide) (eq_ok_result _ (by decide +kernel))

/-- With a budget of 1000, calls for one request each calculate what one call does. -/
theorem calculateFinalizationBatches_chunked_iff_two :
    exampleTwo.ChunkedAsWhole (10 ^ 27) 1 1000 fun _ => 1 := by
  refine (calculateFinalizationBatches_chunked_iff reachable_exampleTwo (by decide)
    fun _ => Nat.one_pos).mpr ⟨2, ⟨?_, ?_⟩, ?_, ?_⟩
  · exact ⟨by decide +kernel, by decide +kernel, by decide +kernel, by decide +kernel,
      by decide +kernel⟩
  · intro c hc
    exact hc.le_last
  · have hshares : ∀ id ∈ Finset.Ioc 0 2, 0 < exampleTwo.amountOfShares id := by decide +kernel
    intro id hid hidle _ _
    exact hshares id (Finset.mem_Ioc.mpr ⟨hid, hidle⟩)
  · intro j hchunk
    have hstart : exampleTwo.chunkStart (fun _ => 1) j = j := by
      rw [chunkStart, ← Finset.card_eq_sum_ones, Finset.card_range]
      exact Nat.zero_add j
    have hspent : ∀ c ≤ 2, exampleTwo.spent (10 ^ 27) c ≠ 1000 := by decide +kernel
    obtain ⟨hle, -⟩ := hchunk
    rw [hstart] at hle ⊢
    exact ⟨hspent j hle, by omega⟩

/-- With a budget of 100, the first of these calls leaves nothing for the second, which reverts. -/
theorem not_calculateFinalizationBatches_chunked : ¬ ∀ (q : WithdrawalQueue) (m T B : Nat)
    (limits : Nat → Nat), Reachable Initial PositiveStep q → 0 < m → 0 < B → (∀ j, 0 < limits j) →
    q.ChunkedAsWhole m T B limits := by
  intro hall
  obtain ⟨j, final, hruns, -⟩ := hall exampleTwo (10 ^ 27) 1 100 (fun _ => 1) reachable_exampleTwo
    (by decide) (by decide) fun _ => Nat.one_pos
  have hfirst : exampleTwo.nextChunk (10 ^ 27) 1 (fun _ => 1) (0, startState 100) =
      .ok (1, ⟨0, false, 1 :: List.replicate 35 0, 1⟩) := by decide +kernel
  cases hruns with
  | done hfinished => exact hfinished rfl
  | round _ hcall hrest =>
    rw [hfirst, Except.ok.injEq] at hcall
    subst hcall
    cases hrest with
    | done hfinished => exact hfinished rfl
    | round _ hcall _ =>
      have hreverts : (exampleTwo.nextChunk (10 ^ 27) 1 (fun _ => 1)
          (1, ⟨0, false, 1 :: List.replicate 35 0, 1⟩)).isOk = false := by decide +kernel
      rw [hcall] at hreverts
      cases hreverts

end WithdrawalQueue

end Catalist
