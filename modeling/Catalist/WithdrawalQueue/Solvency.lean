import Catalist.WithdrawalQueue.Representation
import Catalist.Lib.Escrow

/-!
# Solvency of the withdrawal queue

Finalization locks ace once for each batch, rounded down once. A claim is paid by another
computation: the request's own share rate against the rate of the checkpoint that its hint
points to, rounded down for each request. The queue is solvent because every checkpoint covers
what its requests are due.

## Approach

A request between two checkpoints has one valid hint, and what it is due is a value of
`ShareRate.due`. `prefinalizeLoop_covers` bounds the dues of a whole call of `prefinalize` by the
amount it returns, by induction over the batches. The queue then simulates an `Escrow`: finalizing
funds it for the newly finalized requests, a claim settles one of them, and the other calls leave
it alone.
-/

namespace Catalist

open Solidity ShareRate Transition

namespace WithdrawalQueue

variable {q q' : WithdrawalQueue} {env : Env}

/-! ## What a batch costs -/

/-- What a request is due under the checkpoint it belongs to. -/
def claimable (q : WithdrawalQueue) (id : Nat) : Nat :=
  due E27_PRECISION_BASE (q.checkpoints (q.hintOf id)).maxShareRate
    (q.amountOfBACE id) (q.amountOfShares id)

theorem calcBatch_eq_ok {pre last : WithdrawalRequest} {batch : BatchStats} :
    calcBatch pre last = .ok batch ↔
      pre.cumulativeBACE ≤ last.cumulativeBACE ∧ pre.cumulativeShares ≤ last.cumulativeShares ∧
      (last.cumulativeBACE - pre.cumulativeBACE) * E27_PRECISION_BASE < 2 ^ 256 ∧
      last.cumulativeShares - pre.cumulativeShares ≠ 0 ∧
      batch =
        { shareRate := rate E27_PRECISION_BASE (last.cumulativeBACE - pre.cumulativeBACE)
            (last.cumulativeShares - pre.cumulativeShares)
          bACE := last.cumulativeBACE - pre.cumulativeBACE
          shares := last.cumulativeShares - pre.cumulativeShares } := by
  simp only [calcBatch, bind_eq_ok, pure_eq_ok, checkedSub_eq_ok, checkedMul_eq_ok,
    checkedDiv_eq_ok, rate]
  constructor
  · rintro ⟨_, ⟨hbACE, rfl⟩, _, ⟨hshares, rfl⟩, _, ⟨hmul, rfl⟩, _, ⟨hne, rfl⟩, rfl⟩
    exact ⟨hbACE, hshares, hmul, hne, rfl⟩
  · rintro ⟨hbACE, hshares, hmul, hne, rfl⟩
    exact ⟨_, ⟨hbACE, rfl⟩, _, ⟨hshares, rfl⟩, _, ⟨hmul, rfl⟩, _, ⟨hne, rfl⟩, rfl⟩

/-- The price of a batch is what the batch as one position is due. -/
theorem batchAce_eq_due {m value shares price : Nat}
    (h : batchAce { shareRate := rate E27_PRECISION_BASE value shares, bACE := value,
                    shares := shares } m = .ok price) :
    price = due E27_PRECISION_BASE m value shares := by
  unfold batchAce at h
  unfold due
  split at h
  · next hlt =>
    simp only [bind_eq_ok, checkedMul_eq_ok, checkedDiv_eq_ok] at h
    obtain ⟨_, ⟨_, rfl⟩, _, rfl⟩ := h
    rw [if_pos hlt]
  · next hle =>
    rw [if_neg hle]
    exact (pure_eq_ok.mp h).symm

/-- A discount of an amount below `2 ^ 128` stays within 256 bits. -/
theorem batchAce_of_bound {value : Nat} (m shares : Nat) (hbound : value < 2 ^ 128) :
    batchAce { shareRate := rate E27_PRECISION_BASE value shares, bACE := value,
               shares := shares } m = .ok (due E27_PRECISION_BASE m value shares) := by
  unfold batchAce due
  split
  · next hlt =>
    have hle : shares * m ≤ value * E27_PRECISION_BASE := mul_le_of_lt_rate hlt
    have hmul : shares * m < 2 ^ 256 := by
      unfold E27_PRECISION_BASE at hle
      omega
    rw [checkedMul_of hmul, ok_bind, checkedDiv_of (by decide)]
  · rfl

/-- Inside the queue, `calcBatch` never fails on the requests from `prev` to `last`. -/
theorem WellFormed.calcBatch_of (hw : WellFormed q) {prev last : Nat} (hlt : prev < last)
    (hle : last ≤ q.lastRequestId) :
    calcBatch (q.queue prev) (q.queue last) = .ok
      { shareRate := rate E27_PRECISION_BASE
          ((q.queue last).cumulativeBACE - (q.queue prev).cumulativeBACE)
          ((q.queue last).cumulativeShares - (q.queue prev).cumulativeShares)
        bACE := (q.queue last).cumulativeBACE - (q.queue prev).cumulativeBACE
        shares := (q.queue last).cumulativeShares - (q.queue prev).cumulativeShares } := by
  have hbACE := Ledger.le_of_steps (f := fun i => (q.queue i).cumulativeBACE) hlt.le
    fun i _ hi => hw.bACE_le i (by omega)
  have hshares := Ledger.lt_of_steps (f := fun i => (q.queue i).cumulativeShares) hlt
    fun i _ hi => hw.shares_lt i (by omega)
  have hbound := hw.bACE_bound last hle
  refine calcBatch_eq_ok.mpr ⟨hbACE, hshares.le, ?_, by omega, rfl⟩
  unfold E27_PRECISION_BASE
  omega

/--
`_calculateClaimableAce` succeeds on a request exactly with a valid hint, and returns what the
request is due.
-/
theorem WellFormed.calculateClaimableAce_eq_ok (hw : WellFormed q) {id hint amount : Nat}
    (hpos : 0 < id) (hle : id ≤ q.lastRequestId) :
    q.calculateClaimableAce id hint = .ok amount ↔
      q.ValidHint id hint ∧ amount = due E27_PRECISION_BASE (q.checkpoints hint).maxShareRate
        (q.amountOfBACE id) (q.amountOfShares id) := by
  have hbatch := hw.calcBatch_of (by omega : id - 1 < id) hle
  have hbound : q.amountOfBACE id < 2 ^ 128 :=
    Nat.lt_of_le_of_lt (Nat.sub_le _ _) (hw.bACE_bound id hle)
  have hprice := batchAce_of_bound (q.checkpoints hint).maxShareRate (q.amountOfShares id) hbound
  simp only [amountOfBACE, amountOfShares] at hprice
  simp only [calculateClaimableAce, bind_eq_ok, require_eq_ok, checkedSub_of (by omega : 1 ≤ id),
    Except.ok.injEq, exists_eq_left', hbatch, hprice, ValidHint, amountOfBACE, amountOfShares]
  constructor
  · rintro ⟨_, hzero, _, hlast, _, hfrom, _, hnext, rfl⟩
    exact ⟨⟨hzero, hlast, hfrom, hnext⟩, rfl⟩
  · rintro ⟨⟨hzero, hlast, hfrom, hnext⟩, rfl⟩
    exact ⟨(), hzero, (), hlast, (), hfrom, (), hnext, rfl⟩

/-- The only amount that a finalized request can be claimed for is `claimable`. -/
theorem WellFormed.claimable_eq (hw : WellFormed q) {id hint amount : Nat} (hpos : 0 < id)
    (hle : id ≤ q.lastRequestId) (h : q.calculateClaimableAce id hint = .ok amount) :
    amount = q.claimable id := by
  obtain ⟨hvalid, rfl⟩ := (hw.calculateClaimableAce_eq_ok hpos hle).mp h
  rw [claimable, hw.represented.eq_hintOf hvalid]

/-! ## What `prefinalize` covers -/

theorem prefinalizeLoop_le {m : Nat} {batches : List Nat} {prev eth burn : Nat} {r : Nat × Nat}
    (h : q.prefinalizeLoop m batches prev eth burn = .ok r) : prev ≤ batches.getLastD prev := by
  induction batches generalizing prev eth burn with
  | nil => exact Nat.le_refl _
  | cons e rest ih =>
    obtain ⟨hlt, _, _, _, _, hrest⟩ := prefinalizeLoop_cons_ok_cases h
    have := ih hrest
    rw [List.getLastD_cons]
    omega

/--
**The amount that `prefinalize` returns covers what the requests of its batches are due** at the
same rate, one by one. The induction is over the batches; within a batch the dues of the requests
are compared with the price of the batch.
-/
theorem WellFormed.prefinalizeLoop_covers (hw : WellFormed q) {m : Nat} {batches : List Nat}
    {prev eth burn eth' burn' : Nat}
    (h : q.prefinalizeLoop m batches prev eth burn = .ok (eth', burn'))
    (hhom : q.Homogeneous m batches prev) (hlast : batches.getLastD prev ≤ q.lastRequestId) :
    eth + ∑ id ∈ Finset.Ioc prev (batches.getLastD prev),
      due E27_PRECISION_BASE m (q.amountOfBACE id) (q.amountOfShares id) ≤ eth' := by
  induction batches generalizing prev eth burn with
  | nil =>
    simp only [prefinalizeLoop, pure_eq_ok, Prod.mk.injEq] at h
    simp [h.1]
  | cons e rest ih =>
    obtain ⟨hlt, batch, batchEth, hbatch, hprice, hrest⟩ := prefinalizeLoop_cons_ok_cases h
    obtain ⟨hside, hhomRest⟩ := hhom
    rw [List.getLastD_cons] at hlast ⊢
    have hrestLe := prefinalizeLoop_le hrest
    have hcovered := ih hrest hhomRest hlast
    have he : e ≤ q.lastRequestId := hrestLe.trans hlast
    -- the batch is priced as one position, which covers its requests
    rw [hw.calcBatch_of hlt he, Except.ok.injEq] at hbatch
    subst hbatch
    have hbACE : ∑ id ∈ Finset.Ioc prev e, q.amountOfBACE id
        = (q.queue e).cumulativeBACE - (q.queue prev).cumulativeBACE :=
      Nat.eq_sub_of_add_eq (Ledger.sum_Ioc_tsub (f := fun i => (q.queue i).cumulativeBACE) hlt.le
        fun i _ hi => hw.bACE_le i (by omega))
    have hshares : ∑ id ∈ Finset.Ioc prev e, q.amountOfShares id
        = (q.queue e).cumulativeShares - (q.queue prev).cumulativeShares :=
      Nat.eq_sub_of_add_eq (Ledger.sum_Ioc_tsub (f := fun i => (q.queue i).cumulativeShares) hlt.le
        fun i _ hi => (hw.shares_lt i (by omega)).le)
    have hpos : ∀ id ∈ Finset.Ioc prev e, 0 < q.amountOfShares id := by
      intro id hid
      rw [Finset.mem_Ioc] at hid
      have hgrow := hw.shares_lt (id - 1) (by omega)
      rw [Nat.sub_add_cancel (by omega)] at hgrow
      exact Nat.sub_pos_of_lt hgrow
    have hcover := sum_due_le (Finset.nonempty_Ioc.mpr hlt) hpos hside
    rw [hbACE, hshares, ← batchAce_eq_due hprice] at hcover
    have hsplit := Finset.sum_Ioc_consecutive
      (fun id => due E27_PRECISION_BASE m (q.amountOfBACE id) (q.amountOfShares id)) hlt.le hrestLe
    omega

theorem WellFormed.prefinalize_covers (hw : WellFormed q) {m eth burn : Nat} {batches : List Nat}
    (h : q.prefinalize batches m = .ok (eth, burn))
    (hhom : q.Homogeneous m batches q.lastFinalizedRequestId)
    (hle : batches.getLastD 0 ≤ q.lastRequestId) :
    ∑ id ∈ Finset.Ioc q.lastFinalizedRequestId (batches.getLastD 0),
      due E27_PRECISION_BASE m (q.amountOfBACE id) (q.amountOfShares id) ≤ eth := by
  obtain ⟨-, hne, -, -, hloop⟩ := prefinalize_ok_cases h
  have hlast : batches.getLastD q.lastFinalizedRequestId = batches.getLastD 0 := by
    cases batches with
    | nil => exact absurd rfl hne
    | cons first rest => rw [List.getLastD_cons, List.getLastD_cons]
  have hcovers := hw.prefinalizeLoop_covers hloop hhom (hlast.trans_le hle)
  rwa [hlast, Nat.zero_add] at hcovers

/-! ## The queue as an escrow -/

/-- The escrow that a queue stands for. -/
structure Represents (q : WithdrawalQueue) (e : Escrow Nat) : Prop where
  claims : e.claims = q.pending
  due : ∀ id ∈ q.pending, e.due id = q.claimable id
  locked : e.locked = q.lockedAceAmount
  balance : e.balance = q.balance

theorem represents_initial (h : Initial q) : Represents q (Escrow.empty Nat q.balance) := by
  obtain ⟨q₀, env, h₀, rfl⟩ := h
  have hnone : (q₀.initializeQueue env).pending = ∅ := by
    simp [pending, initializeQueue, h₀.lastFinalizedRequestId]
  exact ⟨hnone.symm, by simp [hnone], h₀.lockedAceAmount.symm, rfl⟩

/-- Finalized requests are due the same as before. -/
theorem Frozen.claimable_eq (hf : Frozen q q') (hq : Represented q) (hq' : Represented q') {id : Nat}
    (hpos : 0 < id) (hfinal : id ≤ q.lastFinalizedRequestId) : q'.claimable id = q.claimable id := by
  have hvalid := hq.validHint_hintOf hpos hfinal
  have hhint := hq'.eq_hintOf ((hf.validHint_iff hfinal).mpr hvalid)
  obtain ⟨hbACE, hshares⟩ := hf.amounts (hfinal.trans hq.finalized_le)
  unfold claimable
  rw [← hhint, hbACE, hshares, hf.checkpoints _ hvalid.2.1]

/-- What is pending before a step is due the same after it. -/
theorem Represents.due_of_step {e : Escrow Nat} (hr : Represents q e) (hq : Represented q)
    (h : AnyStep q q') {id : Nat} (hid : id ∈ q.pending) : e.due id = q'.claimable id := by
  obtain ⟨hpos, hfinal, -⟩ := mem_pending.mp hid
  rw [hr.due id hid, (frozen_of_step h).claimable_eq hq (hq.step h) hpos hfinal]

theorem pending_enqueue (hw : WellFormed q) {bACE shares requestId : Nat} {owner : Address}
    (h : q.enqueue env bACE shares owner = .ok (q', requestId)) : q'.pending = q.pending := by
  obtain ⟨-, -, -, rfl⟩ := enqueue_ok_cases h
  ext id
  simp only [mem_pending]
  refine and_congr_right fun _ => and_congr_right fun hle => ?_
  have hne : id ≠ q.lastRequestId + 1 := by
    have hlast := hw.finalized_le
    omega
  rw [Function.update_of_ne hne]

/-- A new request is not due anything yet. -/
theorem Represents.enqueue {e : Escrow Nat} {bACE shares requestId : Nat} {owner : Address}
    (hr : Represents q e) (hw : WellFormed q)
    (h : q.enqueue env bACE shares owner = .ok (q', requestId)) : Represents q' e := by
  have hpending := pending_enqueue hw h
  have hdue : ∀ id ∈ q.pending, e.due id = q'.claimable id := fun id hid =>
    hr.due_of_step hw.represented (.enqueue trivial h) hid
  obtain ⟨-, -, -, rfl⟩ := enqueue_ok_cases h
  exact ⟨hr.claims.trans hpending.symm, hpending ▸ hdue, hr.locked, hr.balance⟩

/-- The newly finalized requests are due the rate of the new checkpoint. -/
theorem claimable_of_finalize (hw' : WellFormed q') {last m id : Nat}
    (h : q.finalize env last m = .ok q') (hid : id ∈ Finset.Ioc q.lastFinalizedRequestId last) :
    q'.claimable id
      = ShareRate.due E27_PRECISION_BASE m (q.amountOfBACE id) (q.amountOfShares id) := by
  rw [Finset.mem_Ioc] at hid
  have hvalid : q'.ValidHint id (q.lastCheckpointIndex + 1) := by
    obtain ⟨-, -, rfl⟩ := finalize_ok_cases h
    exact ⟨Nat.succ_ne_zero _, Nat.le_refl _, by simpa using hid.1,
      fun hlt => absurd hlt (Nat.lt_irrefl _)⟩
  rw [claimable, ← hw'.represented.eq_hintOf hvalid]
  obtain ⟨-, -, rfl⟩ := finalize_ok_cases h
  simp [amountOfBACE, amountOfShares]

theorem pending_finalize (hw : WellFormed q) {last m : Nat} (h : q.finalize env last m = .ok q') :
    q'.pending = q.pending ∪ Finset.Ioc q.lastFinalizedRequestId last := by
  obtain ⟨hle, hlt, rfl⟩ := finalize_ok_cases h
  ext id
  simp only [Finset.mem_union, mem_pending, Finset.mem_Ioc]
  constructor
  · rintro ⟨hpos, hid, hclaimed⟩
    rcases Nat.lt_or_ge q.lastFinalizedRequestId id with hin | hout
    · exact .inr ⟨hin, hid⟩
    · exact .inl ⟨hpos, hout, hclaimed⟩
  · rintro (⟨hpos, hid, hclaimed⟩ | ⟨hin, hid⟩)
    · exact ⟨hpos, by omega, hclaimed⟩
    · exact ⟨by omega, hid, hw.unclaimed id hin (by omega)⟩

/-- Finalizing funds the escrow for the requests that become claimable. -/
theorem Represents.finalize {e : Escrow Nat} {batches : List Nat} {m sharesToBurn : Nat}
    (hr : Represents q e) (hw : WellFormed q)
    (hpre : q.prefinalize batches m = .ok (env.value, sharesToBurn))
    (hhom : q.Homogeneous m batches q.lastFinalizedRequestId)
    (h : q.finalize env (batches.getLastD 0) m = .ok q') : ∃ e', Represents q' e' := by
  have hw' := hw.finalize h
  have hpending := pending_finalize hw h
  have hdue : ∀ id ∈ q.pending, e.due id = q'.claimable id := fun id hid =>
    hr.due_of_step hw.represented (.finalize trivial h) hid
  have hfunded : ∑ id ∈ Finset.Ioc q.lastFinalizedRequestId (batches.getLastD 0), q'.claimable id
      ≤ env.value := by
    rw [Finset.sum_congr rfl fun id hid => claimable_of_finalize hw' h hid]
    exact hw.prefinalize_covers hpre hhom (finalize_ok_cases h).1
  have hnew : Disjoint e.claims (Finset.Ioc q.lastFinalizedRequestId (batches.getLastD 0)) := by
    rw [hr.claims, Finset.disjoint_left]
    intro id hid hin
    exact absurd (mem_pending.mp hid).2.1 (Nat.not_le.mpr (Finset.mem_Ioc.mp hin).1)
  have hold : ∀ id ∈ e.claims, q'.claimable id = e.due id := fun id hid =>
    (hdue id (hr.claims ▸ hid)).symm
  obtain ⟨-, -, hq'⟩ := finalize_ok_cases h
  refine ⟨e.fund _ q'.claimable env.value hnew hold hfunded, ?_, fun _ _ => rfl, ?_, ?_⟩
  · rw [Escrow.fund_claims, hr.claims, hpending]
  · rw [Escrow.fund_locked, hr.locked, hq']
  · rw [Escrow.fund_balance, hr.balance, hq']

theorem pending_claim {id hint : Nat} {accepts : Bool} (h : q.claim env id hint accepts = .ok q') :
    q'.pending = q.pending.erase id := by
  obtain ⟨-, -, -, -, amount, -, -, -, -, rfl⟩ := claim_ok_cases h
  ext i
  rw [Finset.mem_erase, mem_pending, mem_pending]
  rcases eq_or_ne i id with rfl | hi <;> simp [*]

/-- A claim settles the escrow's claim for the request. -/
theorem Represents.claim {e : Escrow Nat} {id hint : Nat} {accepts : Bool} (hr : Represents q e)
    (hw : WellFormed q) (h : q.claim env id hint accepts = .ok q') : ∃ e', Represents q' e' := by
  have hclaims := pending_claim h
  have hdue : ∀ i ∈ q.pending, e.due i = q'.claimable i := fun i hi =>
    hr.due_of_step hw.represented (.claim h) hi
  obtain ⟨hzero, hfinal, hclaimed, -, amount, hamount, -, -, -, rfl⟩ := claim_ok_cases h
  have hpending : id ∈ q.pending := mem_pending.mpr ⟨by omega, hfinal, hclaimed⟩
  rw [calculateClaimableAce_congr _ _ _ (fun i => (cumulative_claimed q id i).1)
    (fun i => (cumulative_claimed q id i).2)] at hamount
  obtain rfl := hw.claimable_eq (by omega) (hfinal.trans hw.finalized_le) hamount
  have hid : id ∈ e.claims := hr.claims ▸ hpending
  refine ⟨e.settle id hid, ?_, fun i hi => ?_, ?_, ?_⟩
  · rw [Escrow.settle_claims, hr.claims, hclaims]
  · rw [hclaims] at hi
    exact hdue i (Finset.mem_of_mem_erase hi)
  · rw [Escrow.settle_locked, hr.locked, hr.due id hpending]
  · rw [Escrow.settle_balance, hr.balance, hr.due id hpending]

/-- A transfer changes who may claim and nothing else. -/
theorem Represents.transfer {e : Escrow Nat} {fromAddr toAddr : Address} {id : Nat}
    (hr : Represents q e) (hw : WellFormed q) (h : q.transfer env fromAddr toAddr id = .ok q') :
    Represents q' e := by
  have hdue : ∀ i ∈ q.pending, e.due i = q'.claimable i := fun i hi =>
    hr.due_of_step hw.represented (.transfer h) hi
  obtain ⟨-, -, -, -, -, rfl⟩ := transfer_ok_cases h
  have hclaimed : ∀ i, (Function.update q.queue id { q.queue id with owner := toAddr } i).claimed
      = (q.queue i).claimed := by
    intro i
    rcases eq_or_ne i id with rfl | hi <;> simp [*]
  refine ⟨?_, fun i hi => hdue i ?_, hr.locked, hr.balance⟩
  · rw [hr.claims]
    ext i
    simp only [mem_pending, hclaimed]
  · simpa only [mem_pending, hclaimed] using hi

theorem Represents.step {e : Escrow Nat} (hr : Represents q e) (hw : WellFormed q)
    (h : Step q q') : ∃ e', Represents q' e' := by
  cases h with
  | enqueue _ h => exact ⟨e, hr.enqueue hw h⟩
  | finalize hrule h =>
    obtain ⟨batches, sharesToBurn, rfl, hpre, hhom⟩ := hrule
    exact hr.finalize hw hpre hhom h
  | claim h => exact hr.claim hw h
  | transfer h => exact ⟨e, hr.transfer hw h⟩
  | other received =>
    refine ⟨e.receive received, hr.claims, hr.due, hr.locked, ?_⟩
    rw [Escrow.receive_balance, hr.balance]

/-- Every reachable queue stands for an escrow. -/
theorem represents_of_reachable (h : Reachable Initial Step q) : ∃ e, Represents q e :=
  h.simulation wellFormed_of_reachable (fun _ h₀ => ⟨_, represents_initial h₀⟩)
    fun _ _ _ hw hr hs => hr.step hw hs

/-! ## Solvency -/

/--
The owner of a pending request of a solvent queue can claim it: a call with the valid hint fails
only when the recipient does not take the payment.
-/
theorem claim_of_pending (hw : WellFormed q) {e : Escrow Nat} (hr : Represents q e)
    {id hint amount : Nat} (hid : id ∈ q.pending) (howner : (q.queue id).owner = env.sender)
    (hamount : q.calculateClaimableAce id hint = .ok amount) (accepts : Bool) :
    (∃ q', q.claim env id hint accepts = .ok q') ∨
    (accepts = false ∧
      q.claim env id hint accepts = .error (.error .cantSendValueRecipientMayHaveReverted)) := by
  obtain ⟨hpos, hfinal, hclaimed⟩ := mem_pending.mp hid
  have hle := hfinal.trans hw.finalized_le
  have hdue : amount ≤ q.lockedAceAmount := by
    rw [hw.claimable_eq hpos hle hamount, ← hr.due id hid, ← hr.locked]
    exact e.due_le_locked (hr.claims ▸ hid)
  have hbalance : amount ≤ q.balance := by
    have := e.backed
    rw [hr.locked, hr.balance] at this
    exact hdue.trans this
  have hset : id ∈ q.requestsByOwner (q.queue id).owner :=
    (hw.owners _ _).mpr ⟨hpos, hle, hclaimed, rfl⟩
  have hcompute := calculateClaimableAce_congr
    (Function.update q.requestsByOwner (q.queue id).owner
      ((q.requestsByOwner (q.queue id).owner).erase id)) id hint
    (fun i => (cumulative_claimed q id i).1) (fun i => (cumulative_claimed q id i).2)
  simp only at hcompute
  simp only [WithdrawalQueue.claim, sendValue, require_of (by omega : id ≠ 0), require_of hfinal,
    require_of hclaimed, require_of howner, ensure_of hset, hcompute, hamount, checkedSub_of hdue,
    require_of hbalance, ok_bind]
  cases accepts with
  | true => exact .inl ⟨_, rfl⟩
  | false => exact .inr ⟨rfl, rfl⟩

/--
**Solvency.** In every reachable state of the queue:

* every finalized and unclaimed request has exactly one hint for which `_calculateClaimableAce`
  succeeds;
* the amounts that it returns for all these requests add up to at most `lockedAceAmount`;
* the contract holds `lockedAceAmount`;
* the owner's `_claim` with the valid hint goes through, unless the recipient refuses the payment.
-/
theorem solvency (h : Reachable Initial Step q) :
    (∀ id ∈ q.pending, ∃! hint, ∃ amount, q.calculateClaimableAce id hint = .ok amount) ∧
    (∀ hint amount : Nat → Nat,
      (∀ id ∈ q.pending, q.calculateClaimableAce id (hint id) = .ok (amount id)) →
      ∑ id ∈ q.pending, amount id ≤ q.lockedAceAmount) ∧
    q.lockedAceAmount ≤ q.balance ∧
    (∀ (env : Env) (id hint amount : Nat) (accepts : Bool), id ∈ q.pending →
      (q.queue id).owner = env.sender → q.calculateClaimableAce id hint = .ok amount →
      (∃ q', q.claim env id hint accepts = .ok q') ∨
      (accepts = false ∧
        q.claim env id hint accepts = .error (.error .cantSendValueRecipientMayHaveReverted))) := by
  have hw := wellFormed_of_reachable h
  obtain ⟨e, hr⟩ := represents_of_reachable h
  refine ⟨fun id hid => ?_, fun hint amount hamount => ?_, ?_, fun _ _ _ _ accepts hid howner ha =>
    claim_of_pending hw hr hid howner ha accepts⟩
  · obtain ⟨hpos, hfinal, -⟩ := mem_pending.mp hid
    have hle := hfinal.trans hw.finalized_le
    refine ⟨q.hintOf id, ⟨_, (hw.calculateClaimableAce_eq_ok hpos hle).mpr
      ⟨hw.represented.validHint_hintOf hpos hfinal, rfl⟩⟩, ?_⟩
    rintro hint ⟨amount, hamount⟩
    exact hw.represented.eq_hintOf ((hw.calculateClaimableAce_eq_ok hpos hle).mp hamount).1
  · have hsum : ∑ id ∈ q.pending, amount id = ∑ id ∈ e.claims, e.due id := by
      rw [hr.claims]
      refine Finset.sum_congr rfl fun id hid => ?_
      obtain ⟨hpos, hfinal, -⟩ := mem_pending.mp hid
      rw [hr.due id hid]
      exact hw.claimable_eq hpos (hfinal.trans hw.finalized_le) (hamount id hid)
    rw [hsum, ← hr.locked]
    exact e.covered
  · rw [← hr.locked, ← hr.balance]
    exact e.backed

/--
A run that finalizes one request at its nominal amount and one with a discount, in two batches,
and leaves both of them to be claimed.
-/
theorem solvency_two_batches : ∃ q, Reachable Initial Step q ∧ q.pending = {1, 2} ∧
    q.lockedAceAmount = 300 ∧ q.lockedAceAmount ≤ q.balance := by
  have h₀ : Reachable Initial Step _ := .init initial_exampleBlankQueue
  have h₁ := h₀.step (@StepUnder.enqueue _ _ _ (exampleQueueEnv 0) 100 100 _ 7 (Nat.succ_pos _)
    (eq_ok_result _ (by decide +kernel)))
  have h₂ := h₁.step (@StepUnder.enqueue _ _ _ (exampleQueueEnv 0) 300 100 _ 8 (Nat.succ_pos _)
    (eq_ok_result _ (by decide +kernel)))
  have h₃ := h₂.step (@StepUnder.finalize _ _ _ (exampleQueueEnv 300) 2 (2 * 10 ^ 27)
    ⟨[1, 2], 200, rfl, by decide +kernel, .inr (by decide +kernel), .inl (by decide +kernel), trivial⟩
    (eq_ok_result _ (by decide +kernel)))
  exact ⟨_, h₃, by decide +kernel, by decide +kernel, (solvency h₃).2.2.1⟩

end WithdrawalQueue

end Catalist
