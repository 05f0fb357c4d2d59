import Catalist.WithdrawalQueue.Hints
import Catalist.WithdrawalQueue.Solvency
import Catalist.Lib.Grouping

/-!
# What `prefinalize` accepts

`prefinalize` prices the batches one by one (`prefinalizeLoop_ok_cases`). No batch is priced above
its amount or above `m` for a share, so neither is the whole (`prefinalize_not_overpaid`).
`_finalize` checks the range and the amount again, from the sums in the queue, and passes what
`prefinalize` returned (`finalize_of_prefinalize`).
-/

namespace Catalist

open Solidity ShareRate Transition Grouping

namespace WithdrawalQueue

variable {q q' : WithdrawalQueue} {env : Env} {m a b prev eth burn : Nat} {batches : List Nat}

/-! ## Batches -/

/-- The amount of the requests after `a` up to `b`. -/
def batchBACE (q : WithdrawalQueue) (a b : Nat) : Nat :=
  (q.queue b).cumulativeBACE - (q.queue a).cumulativeBACE

/-- The shares of the requests after `a` up to `b`. -/
def batchShares (q : WithdrawalQueue) (a b : Nat) : Nat :=
  (q.queue b).cumulativeShares - (q.queue a).cumulativeShares

/-- The price of the requests after `a` up to `b` as one batch. -/
def batchPrice (q : WithdrawalQueue) (m a b : Nat) : Nat :=
  due E27_PRECISION_BASE m (q.batchBACE a b) (q.batchShares a b)

/-- A batch that `_calcBatch` does not divide by zero for. -/
def IsBatch (q : WithdrawalQueue) (a b : Nat) : Prop :=
  a < b ∧ 0 < q.batchShares a b

theorem Represented.calcBatch_of (hr : Represented q) (h : q.IsBatch a b)
    (hb : b ≤ q.lastRequestId) :
    calcBatch (q.queue a) (q.queue b) = .ok
      { shareRate := rate E27_PRECISION_BASE (q.batchBACE a b) (q.batchShares a b)
        bACE := q.batchBACE a b, shares := q.batchShares a b } := by
  obtain ⟨hbACE, hshares⟩ := hr.sums_le h.1.le hb
  have hbound := hr.bACE_bound b hb
  refine calcBatch_eq_ok.mpr ⟨hbACE, hshares, ?_, h.2.ne', rfl⟩
  unfold E27_PRECISION_BASE
  omega

theorem Represented.batchBACE_lt (hr : Represented q) (a : Nat) (hb : b ≤ q.lastRequestId) :
    q.batchBACE a b < 2 ^ 128 :=
  (Nat.sub_le _ _).trans_lt (hr.bACE_bound b hb)

/-- What the loop has found when it returns. -/
theorem prefinalizeLoop_ok_cases {r : Nat × Nat}
    (h : q.prefinalizeLoop m batches prev eth burn = .ok r) :
    (prev :: batches).IsChain q.IsBatch ∧
      r = (eth + sum (q.batchPrice m) prev batches, burn + sum q.batchShares prev batches) := by
  induction batches generalizing prev eth burn with
  | nil =>
    rw [prefinalizeLoop, pure_eq_ok] at h
    exact ⟨List.isChain_singleton _, h.symm⟩
  | cons e rest ih =>
    obtain ⟨hlt, batch, batchEth, hbatch, hprice, hrest⟩ := prefinalizeLoop_cons_ok_cases h
    obtain ⟨-, -, -, hne, rfl⟩ := calcBatch_eq_ok.mp hbatch
    obtain ⟨hchain, rfl⟩ := ih hrest
    refine ⟨List.isChain_cons_cons.mpr ⟨⟨hlt, Nat.pos_of_ne_zero hne⟩, hchain⟩, ?_⟩
    rw [batchAce_eq_due hprice, Nat.add_assoc, Nat.add_assoc]
    rfl

/-- The loop accepts every chain of batches whose totals fit. -/
theorem Represented.prefinalizeLoop_of (hr : Represented q)
    (hchain : (prev :: batches).IsChain q.IsBatch) (hlast : batches.getLastD prev ≤ q.lastRequestId)
    (heth : eth + sum (q.batchPrice m) prev batches < 2 ^ 256)
    (hburn : burn + sum q.batchShares prev batches < 2 ^ 256) :
    q.prefinalizeLoop m batches prev eth burn =
      .ok (eth + sum (q.batchPrice m) prev batches, burn + sum q.batchShares prev batches) := by
  induction batches generalizing prev eth burn with
  | nil => rfl
  | cons e rest ih =>
    obtain ⟨hbatch, hrest⟩ := List.isChain_cons_cons.mp hchain
    rw [List.getLastD_cons] at hlast
    have hasc : Ascending e rest := hrest.imp fun _ _ h => h.1
    have he : e ≤ q.lastRequestId := hasc.le_last.trans hlast
    rw [sum, ← Nat.add_assoc] at heth hburn
    have hprice : batchAce _ m = .ok (q.batchPrice m prev e) :=
      batchAce_of_bound m (q.batchShares prev e) (hr.batchBACE_lt prev he)
    have heth₁ : eth + q.batchPrice m prev e < 2 ^ 256 := by omega
    have hburn₁ : burn + q.batchShares prev e < 2 ^ 256 := by omega
    rw [prefinalizeLoop, require_of hbatch.1, ok_bind, hr.calcBatch_of hbatch he, ok_bind, hprice,
      ok_bind, checkedAdd_of heth₁, ok_bind, checkedAdd_of hburn₁, ok_bind,
      ih hrest hlast heth hburn, sum, sum, Nat.add_assoc, Nat.add_assoc]

/-- What `prefinalize` has found when it returns. -/
theorem prefinalize_sums (h : q.prefinalize batches m = .ok (eth, burn)) :
    (q.lastFinalizedRequestId :: batches).IsChain q.IsBatch ∧
    batches.getLastD q.lastFinalizedRequestId = batches.getLastD 0 ∧
    eth = sum (q.batchPrice m) q.lastFinalizedRequestId batches ∧
    burn = sum q.batchShares q.lastFinalizedRequestId batches := by
  obtain ⟨-, hne, -, -, hloop⟩ := prefinalize_ok_cases h
  obtain ⟨hchain, hsums⟩ := prefinalizeLoop_ok_cases hloop
  rw [Nat.zero_add, Nat.zero_add, Prod.mk.injEq] at hsums
  exact ⟨hchain, getLastD_of_ne_nil hne _ _, hsums⟩

/-! ## The price of the shares -/

theorem Represented.sum_amountOfBACE (hr : Represented q) (hab : a ≤ b)
    (hb : b ≤ q.lastRequestId) : ∑ id ∈ Finset.Ioc a b, q.amountOfBACE id = q.batchBACE a b :=
  Nat.eq_sub_of_add_eq (Ledger.sum_Ioc_tsub (f := fun i => (q.queue i).cumulativeBACE) hab
    fun i _ hi => hr.bACE_le i (hi.trans_le hb))

theorem Represented.sum_amountOfShares (hr : Represented q) (hab : a ≤ b)
    (hb : b ≤ q.lastRequestId) : ∑ id ∈ Finset.Ioc a b, q.amountOfShares id = q.batchShares a b :=
  Nat.eq_sub_of_add_eq (Ledger.sum_Ioc_tsub (f := fun i => (q.queue i).cumulativeShares) hab
    fun i _ hi => hr.shares_le i (hi.trans_le hb))

theorem ascending_of_chain (h : (prev :: batches).IsChain q.IsBatch) : Ascending prev batches :=
  h.imp fun _ _ hab => hab.1

/-- The sums of the batches are those between their ends. -/
theorem Represented.sum_batches (hr : Represented q) (h : (prev :: batches).IsChain q.IsBatch)
    (hlast : batches.getLastD prev ≤ q.lastRequestId) :
    sum q.batchBACE prev batches = q.batchBACE prev (batches.getLastD prev) ∧
    sum q.batchShares prev batches = q.batchShares prev (batches.getLastD prev) := by
  have hsorted := (ascending_of_chain h).chain (R := fun a b =>
      (q.queue a).cumulativeBACE ≤ (q.queue b).cumulativeBACE ∧
      (q.queue a).cumulativeShares ≤ (q.queue b).cumulativeShares)
    fun a b _ hab hb => hr.sums_le hab.le (hb.trans hlast)
  have hbACE := sum_tsub (f := fun i => (q.queue i).cumulativeBACE) (hsorted.imp fun _ _ h => h.1)
  have hshares := sum_tsub (f := fun i => (q.queue i).cumulativeShares)
    (hsorted.imp fun _ _ h => h.2)
  exact ⟨Nat.eq_sub_of_add_eq hbACE, Nat.eq_sub_of_add_eq hshares⟩

/-- What `prefinalize` returns, between the ends of the batches. -/
theorem prefinalize_bounds (hr : Represented q) (h : q.prefinalize batches m = .ok (eth, burn)) :
    q.lastFinalizedRequestId < batches.getLastD 0 ∧ batches.getLastD 0 ≤ q.lastRequestId ∧
    eth ≤ q.batchBACE q.lastFinalizedRequestId (batches.getLastD 0) ∧
    burn = q.batchShares q.lastFinalizedRequestId (batches.getLastD 0) := by
  obtain ⟨-, hne, -, hle, -⟩ := prefinalize_ok_cases h
  obtain ⟨hchain, hlast, rfl, rfl⟩ := prefinalize_sums h
  obtain ⟨hbACE, hshares⟩ := hr.sum_batches hchain (hlast ▸ hle)
  rw [hlast] at hbACE hshares
  refine ⟨hlast ▸ (ascending_of_chain hchain).lt_last hne, hle, ?_, hshares⟩
  -- the batches are priced below their amounts
  rw [← hbACE]
  exact sum_le (hchain.imp fun a b _ => due_le_value _ m _ _)

/--
**Finalization never overpays the shares.** Whatever the batches, the ace to lock is at most what the
burnt shares are worth at the rate `m`, up to one unit of its precision, and at most the amount of the
requests.
-/
theorem prefinalize_not_overpaid (h : Reachable Initial AnyStep q)
    (haccepted : q.prefinalize batches m = .ok (eth, burn)) :
    eth * E27_PRECISION_BASE ≤ burn * (m + 1) ∧ 0 < burn ∧
    eth ≤ ∑ id ∈ Finset.Ioc q.lastFinalizedRequestId (batches.getLastD 0), q.amountOfBACE id := by
  have hr := represented_of_reachable h
  obtain ⟨-, hne, -, -, -⟩ := prefinalize_ok_cases haccepted
  obtain ⟨hlt, hle, hbACE, -⟩ := prefinalize_bounds hr haccepted
  obtain ⟨hchain, -, rfl, rfl⟩ := prefinalize_sums haccepted
  refine ⟨?_, ?_, ?_⟩
  · rw [← sum_mul, ← sum_mul]
    exact sum_le (hchain.imp fun a b hab => due_mul_le hab.2 m _)
  · obtain ⟨e, rest, rfl⟩ := List.exists_cons_of_ne_nil hne
    obtain ⟨hbatch, -⟩ := List.isChain_cons_cons.mp hchain
    exact Nat.add_pos_left hbatch.2 _
  · rw [hr.sum_amountOfBACE hlt.le hle]
    exact hbACE

/-! A request of 400 with 300 shares behind a finalized one. -/

theorem reachable_exampleSecond : Reachable Initial PositiveStep exampleSecond.1 := by
  have hinit : Initial (exampleUnhinted.initializeQueue (exampleHintEnv 0)) :=
    ⟨exampleUnhinted, exampleHintEnv 0, ⟨rfl, rfl, rfl, rfl, fun _ => rfl⟩, rfl⟩
  have hfirst : (exampleUnhinted.initializeQueue (exampleHintEnv 0)).enqueue (exampleHintEnv 0) 100
      90 7 = .ok exampleFirst := eq_ok_result _ (by decide +kernel)
  have hone : exampleFirst.1.finalize (exampleHintEnv 100) 1 (10 ^ 27) = .ok exampleOneHint :=
    eq_ok_result _ (by decide +kernel)
  have hsecond : exampleOneHint.enqueue (exampleHintEnv 0) 400 300 7 = .ok exampleSecond :=
    eq_ok_result _ (by decide +kernel)
  rw [← Prod.mk.eta (p := exampleFirst)] at hfirst
  rw [← Prod.mk.eta (p := exampleSecond)] at hsecond
  have h₀ : Reachable Initial PositiveStep _ := .init hinit
  have h₁ := h₀.step (.enqueue (Nat.succ_pos _) hfirst)
  have h₂ := h₁.step (.finalize trivial hone)
  exact h₂.step (.enqueue (Nat.succ_pos _) hsecond)

/-- The discounted price of the second request is what its shares are worth. -/
theorem prefinalize_not_overpaid_discounted :
    exampleSecond.1.prefinalize [2] (10 ^ 27) = .ok (300, 300) ∧
      300 * E27_PRECISION_BASE ≤ 300 * (10 ^ 27 + 1) := by
  have hany : Reachable Initial AnyStep exampleSecond.1 :=
    reachable_exampleSecond.mono fun _ _ h => h.any
  have haccepted : exampleSecond.1.prefinalize [2] (10 ^ 27) = .ok (300, 300) := by decide +kernel
  exact ⟨haccepted, (prefinalize_not_overpaid hany haccepted).1⟩

/-! ## Finalization after `prefinalize` -/

/-- Counters, sums and locked ace are bounded by the amounts in the queue. -/
structure Bounded (q : WithdrawalQueue) : Prop where
  counted : Counted q
  shares_lt : (q.queue q.lastRequestId).cumulativeShares < 2 ^ 128
  locked_le : q.lockedAceAmount ≤ (q.queue q.lastFinalizedRequestId).cumulativeBACE

theorem bounded_initial (h : Initial q) : Bounded q := by
  refine ⟨counted_initial h, ?_, ?_⟩
  · obtain ⟨q₀, env, h₀, rfl⟩ := h
    simp [initializeQueue, h₀.lastRequestId]
  · obtain ⟨q₀, env, h₀, rfl⟩ := h
    exact h₀.lockedAceAmount.le.trans (Nat.zero_le _)

theorem Bounded.step (hb : Bounded q) (h : PositiveStep q q') : Bounded q' := by
  have hlocked := hb.locked_le
  have hshares := hb.shares_lt
  have hfinal := hb.counted.represented.finalized_le
  have hfrozen := frozen_of_step h.any
  have hsame := hfrozen.bACE q.lastFinalizedRequestId hfinal
  have hsameShares := hfrozen.shares q.lastRequestId (Nat.le_refl _)
  refine ⟨hb.counted.step h, ?_, ?_⟩
  · cases h with
    | enqueue _ h =>
      obtain ⟨hfits, -, -, rfl⟩ := enqueue_ok_cases h
      simpa using hfits
    | finalize _ h =>
      obtain ⟨-, -, rfl⟩ := finalize_ok_cases h
      exact hshares
    | claim h =>
      obtain ⟨-, -, -, -, amount, -, -, -, -, rfl⟩ := claim_ok_cases h
      exact hsameShares.trans_lt hshares
    | transfer h =>
      obtain ⟨-, -, -, -, -, rfl⟩ := transfer_ok_cases h
      exact hsameShares.trans_lt hshares
    | other => exact hshares
  · cases h with
    | enqueue _ h =>
      obtain ⟨-, -, -, rfl⟩ := enqueue_ok_cases h
      exact hlocked.trans hsame.ge
    | finalize _ h =>
      have hvalue := finalize_value_le h
      obtain ⟨hle, hlt, rfl⟩ := finalize_ok_cases h
      have hsums := (hb.counted.represented.sums_le hlt.le hle).1
      simp only
      omega
    | claim h =>
      obtain ⟨-, -, -, -, amount, -, -, -, -, rfl⟩ := claim_ok_cases h
      exact (Nat.sub_le _ _).trans (hlocked.trans hsame.ge)
    | transfer h =>
      obtain ⟨-, -, -, -, -, rfl⟩ := transfer_ok_cases h
      exact hlocked.trans hsame.ge
    | other => exact hlocked

theorem bounded_of_reachable (h : Reachable Initial PositiveStep q) : Bounded q :=
  h.invariant (fun _ => bounded_initial) fun _ _ hb hs => hb.step hs

/-- A finalization of the right amount succeeds. -/
theorem Bounded.finalizeInternal_of (hb : Bounded q) {last amount : Nat}
    (hlt : q.lastFinalizedRequestId < last) (hle : last ≤ q.lastRequestId)
    (hamount : amount ≤ q.batchBACE q.lastFinalizedRequestId last) :
    ∃ q', q.finalizeInternal last amount m = .ok q' := by
  have hlocked := hb.locked_le
  have hindex := hb.counted.le_finalized
  have hcount := hb.counted.le_bACE
  have hbound := hb.counted.represented.bACE_bound q.lastRequestId (Nat.le_refl _)
  obtain ⟨hbACE, hshares⟩ := hb.counted.represented.sums_le hlt.le hle
  have hsum := (hb.counted.represented.sums_le hle (Nat.le_refl _)).1
  unfold batchBACE at hamount
  unfold finalizeInternal
  simp only [require_of hle, require_of hlt, ok_bind, checkedSub_of hbACE, require_of hamount,
    checkedSub_of hshares, checkedAdd_of (show q.lastFinalizedRequestId + 1 < 2 ^ 256 by omega),
    checkedAdd_of (show q.lastCheckpointIndex + 1 < 2 ^ 256 by omega),
    checkedAdd_of (show q.lockedAceAmount + amount < 2 ^ 256 by omega)]
  exact ⟨_, rfl⟩

theorem finalize_eq_internal {last : Nat} (hpaused : q.isPaused env = false)
    (hrole : q.hasRole .finalize env.sender = true) :
    q.finalize env last m =
      { q with balance := q.balance + env.value }.finalizeInternal last env.value m := by
  unfold finalize
  rw [require_of hpaused, ok_bind, require_of hrole, ok_bind]

theorem Bounded.finalize_of (hb : Bounded q) {last : Nat} (hpaused : q.isPaused env = false)
    (hrole : q.hasRole .finalize env.sender = true) (hlt : q.lastFinalizedRequestId < last)
    (hle : last ≤ q.lastRequestId)
    (hvalue : env.value ≤ q.batchBACE q.lastFinalizedRequestId last) :
    ∃ q', q.finalize env last m = .ok q' := by
  have hpaid : Bounded { q with balance := q.balance + env.value } := hb.step (.other env.value)
  rw [finalize_eq_internal hpaused hrole]
  exact hpaid.finalizeInternal_of hlt hle hvalue

/-- `prefinalize` accepts every chain of batches of the requests that are not finalized. -/
theorem Bounded.prefinalize_of (hb : Bounded q) (hm : m ≠ 0) (hne : batches ≠ [])
    (hchain : (q.lastFinalizedRequestId :: batches).IsChain q.IsBatch)
    (hlast : batches.getLastD 0 ≤ q.lastRequestId) :
    q.prefinalize batches m = .ok (sum (q.batchPrice m) q.lastFinalizedRequestId batches,
      sum q.batchShares q.lastFinalizedRequestId batches) := by
  have hr := hb.counted.represented
  have hend := getLastD_of_ne_nil hne q.lastFinalizedRequestId 0
  obtain ⟨hbACE, hshares⟩ := hr.sum_batches hchain (hend ▸ hlast)
  have hprices : sum (q.batchPrice m) q.lastFinalizedRequestId batches
      ≤ sum q.batchBACE q.lastFinalizedRequestId batches :=
    sum_le (hchain.imp fun a b _ => due_le_value _ m _ _)
  have heth : sum (q.batchPrice m) q.lastFinalizedRequestId batches < 2 ^ 128 :=
    hprices.trans_lt (hbACE.trans_lt (hr.batchBACE_lt _ (hend ▸ hlast)))
  have hburn : sum q.batchShares q.lastFinalizedRequestId batches < 2 ^ 128 := by
    have hsum := (hr.sums_le hlast (Nat.le_refl _)).2
    rw [hshares, hend]
    exact (Nat.sub_le _ _).trans_lt (hsum.trans_lt hb.shares_lt)
  have hfirst : q.lastFinalizedRequestId < batches.headD 0 := by
    obtain ⟨e, rest, rfl⟩ := List.exists_cons_of_ne_nil hne
    exact (List.isChain_cons_cons.mp hchain).1.1
  unfold prefinalize
  rw [require_of hm, ok_bind, require_of hne, ok_bind]
  simp only
  rw [require_of hfirst, ok_bind, require_of hlast, ok_bind,
    hr.prefinalizeLoop_of hchain (hend ▸ hlast) (by omega) (by omega), Nat.zero_add, Nat.zero_add]

/-- The new checkpoint is a hint of the requests behind those finalized before. -/
theorem validHint_of_finalizeInternal {last amount : Nat}
    (h : q.finalizeInternal last amount m = .ok q') (id : Nat) :
    q'.ValidHint id q'.lastCheckpointIndex ↔ q.lastFinalizedRequestId < id := by
  obtain ⟨-, -, rfl⟩ := finalizeInternal_ok_cases h
  constructor
  · rintro ⟨-, -, hfrom, -⟩
    simpa using hfrom
  · intro hid
    refine ⟨Nat.succ_ne_zero _, Nat.le_refl _, ?_, fun hlt => absurd hlt (Nat.lt_irrefl _)⟩
    simpa using hid

/--
**What `prefinalize` accepts, `finalize` executes.** The shares to burn are those between the two
ends, and with the ace to lock as its value `finalize` makes the last batch end the last finalized
request and locks this value. The new checkpoint has the rate `m` and is the one hint of each newly
finalized request; the others keep their hints.
-/
theorem finalize_of_prefinalize (h : Reachable Initial PositiveStep q)
    (haccepted : q.prefinalize batches m = .ok (env.value, burn))
    (hpaused : q.isPaused env = false) (hrole : q.hasRole .finalize env.sender = true) :
    burn = (q.queue (batches.getLastD 0)).cumulativeShares -
      (q.queue q.lastFinalizedRequestId).cumulativeShares ∧
    ∃ q', q.finalize env (batches.getLastD 0) m = .ok q' ∧
      q'.lastFinalizedRequestId = batches.getLastD 0 ∧
      q'.lockedAceAmount = q.lockedAceAmount + env.value ∧
      q'.checkpoints q'.lastCheckpointIndex = ⟨q.lastFinalizedRequestId + 1, m⟩ ∧
      (∀ id, id ≤ q'.lastFinalizedRequestId →
        (q'.ValidHint id q'.lastCheckpointIndex ↔ q.lastFinalizedRequestId < id)) ∧
      (∀ id hint, q.lastFinalizedRequestId < id → id ≤ q'.lastFinalizedRequestId →
        q'.ValidHint id hint → hint = q'.lastCheckpointIndex) ∧
      ∀ id hint, id ≤ q.lastFinalizedRequestId → (q'.ValidHint id hint ↔ q.ValidHint id hint) := by
  have hb := bounded_of_reachable h
  have hr := hb.counted.represented
  obtain ⟨hlt, hle, hvalue, hshares⟩ := prefinalize_bounds hr haccepted
  obtain ⟨q', hfinalize⟩ := hb.finalize_of (m := m) hpaused hrole hlt hle hvalue
  have hnew := validHint_of_finalizeInternal ((finalize_eq_internal hpaused hrole).symm.trans hfinalize)
  have hr' := hr.finalize hfinalize
  have hfrozen := frozen_of_step (.finalize trivial hfinalize)
  have hone : ∀ id hint, q.lastFinalizedRequestId < id → id ≤ q'.lastFinalizedRequestId →
      q'.ValidHint id hint → hint = q'.lastCheckpointIndex := by
    intro id hint hid _ hvalid
    rw [hr'.eq_hintOf hvalid, hr'.eq_hintOf ((hnew id).mpr hid)]
  refine ⟨hshares, q', hfinalize, ?_, ?_, ?_, fun id _ => hnew id, hone,
    fun id hint hid => hfrozen.validHint_iff hid⟩
  all_goals
    obtain ⟨-, -, rfl⟩ := finalize_ok_cases hfinalize
    simp

/-- The second request is finalized with its discounted price. -/
theorem finalize_of_prefinalize_discounted :
    ∃ q', exampleSecond.1.finalize (exampleHintEnv 300) 2 (10 ^ 27) = .ok q' ∧
      q'.lockedAceAmount = 400 ∧ ∀ id, id ≤ 2 →
        (q'.ValidHint id q'.lastCheckpointIndex ↔ 1 < id) := by
  have haccepted : exampleSecond.1.prefinalize [2] (10 ^ 27) =
      .ok ((exampleHintEnv 300).value, 300) := by decide +kernel
  obtain ⟨-, q', hfinalize, hlast, hlocked, -, hnew, -⟩ := finalize_of_prefinalize
    reachable_exampleSecond haccepted (by decide +kernel) (by decide +kernel)
  rw [hlast] at hnew
  exact ⟨q', hfinalize, hlocked, hnew⟩

end WithdrawalQueue

end Catalist
