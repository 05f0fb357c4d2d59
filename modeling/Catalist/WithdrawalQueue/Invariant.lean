import Catalist.WithdrawalQueue.Effects
import Catalist.Lib.Transition
import Mathlib.Order.Interval.Finset.Nat

/-!
# The invariant of the withdrawal queue

A step of the queue is a call that succeeds. The cumulative sums grow along the queue, the
checkpoints partition the finalized requests, and the owners' sets list exactly the requests
that can still be claimed. `Represented` collects this, and `WellFormed` says besides that no
request is without shares; every reachable queue is well formed.
-/

namespace Catalist

open Solidity ShareRate Transition

namespace WithdrawalQueue

variable {q q' : WithdrawalQueue} {env : Env}

/-! ## Requests and their amounts -/

/-- The bACE amount that a request was made with. -/
def amountOfBACE (q : WithdrawalQueue) (id : Nat) : Nat :=
  (q.queue id).cumulativeBACE - (q.queue (id - 1)).cumulativeBACE

/-- The shares that a request was made with. -/
def amountOfShares (q : WithdrawalQueue) (id : Nat) : Nat :=
  (q.queue id).cumulativeShares - (q.queue (id - 1)).cumulativeShares

/-- The share rate of a request at the time it was made. -/
def shareRateOf (q : WithdrawalQueue) (id : Nat) : Nat :=
  rate E27_PRECISION_BASE (q.amountOfBACE id) (q.amountOfShares id)

/-- The requests that are finalized and not claimed yet. -/
def pending (q : WithdrawalQueue) : Finset Nat :=
  (Finset.Ioc 0 q.lastFinalizedRequestId).filter fun id => (q.queue id).claimed = false

theorem mem_pending {id : Nat} :
    id ∈ q.pending ↔ 0 < id ∧ id ≤ q.lastFinalizedRequestId ∧ (q.queue id).claimed = false := by
  simp [pending, and_assoc]

/--
The batches that end at `batches`, the first one starting after `prev`, each have all their
requests above the rate `m` or all at most at it.
-/
def Homogeneous (q : WithdrawalQueue) (m : Nat) : List Nat → Nat → Prop
  | [], _ => True
  | e :: rest, prev =>
    ((∀ id ∈ Finset.Ioc prev e, m < q.shareRateOf id) ∨
      (∀ id ∈ Finset.Ioc prev e, q.shareRateOf id ≤ m)) ∧
    Homogeneous q m rest e

/-! ## Steps -/

/-- The storage before `_initializeQueue`: nothing was written to the queue. -/
structure Blank (q : WithdrawalQueue) : Prop where
  lastRequestId : q.lastRequestId = 0
  lastFinalizedRequestId : q.lastFinalizedRequestId = 0
  lastCheckpointIndex : q.lastCheckpointIndex = 0
  lockedAceAmount : q.lockedAceAmount = 0
  requestsByOwner : ∀ owner, q.requestsByOwner owner = ∅

/-- A queue right after `_initializeQueue`. -/
def Initial (q : WithdrawalQueue) : Prop :=
  ∃ q₀ env, Blank q₀ ∧ q = q₀.initializeQueue env

/-- The rules that a run keeps. -/
structure Rules where
  /-- for the amount and the shares of a request -/
  request : Nat → Nat → Prop
  /-- for the last request and the share rate of a finalization -/
  finalization : WithdrawalQueue → Env → Nat → Nat → Prop

/-- The calls that a run under the rules is made of. -/
inductive StepUnder (rules : Rules) : WithdrawalQueue → WithdrawalQueue → Prop where
  | enqueue {q q' : WithdrawalQueue} {env : Env} {bACE shares requestId : Nat} {owner : Address} :
      rules.request bACE shares → q.enqueue env bACE shares owner = .ok (q', requestId) →
      StepUnder rules q q'
  | finalize {q q' : WithdrawalQueue} {env : Env} {last m : Nat} :
      rules.finalization q env last m → q.finalize env last m = .ok q' → StepUnder rules q q'
  | claim {q q' : WithdrawalQueue} {env : Env} {id hint : Nat} {accepts : Bool} :
      q.claim env id hint accepts = .ok q' → StepUnder rules q q'
  | transfer {q q' : WithdrawalQueue} {env : Env} {fromAddr toAddr : Address} {id : Nat} :
      q.transfer env fromAddr toAddr id = .ok q' → StepUnder rules q q'
  /-- Approvals, pausing, roles and report times change freely, and ace may be received. -/
  | other {q : WithdrawalQueue} {tokenApprovals : Nat → Address}
      {operatorApprovals : Address → Address → Bool} {resumeSinceTimestamp lastReportTimestamp : Nat}
      {hasRole : QueueRole → Address → Bool} (received : Nat) :
      StepUnder rules q { q with
        tokenApprovals := tokenApprovals, operatorApprovals := operatorApprovals,
        resumeSinceTimestamp := resumeSinceTimestamp, lastReportTimestamp := lastReportTimestamp,
        hasRole := hasRole, balance := q.balance + received }

/-- Requests have shares, and finalizations pay what `prefinalize` returns for homogeneous batches. -/
def settledRules : Rules where
  request _ shares := 0 < shares
  finalization q env last m := ∃ batches sharesToBurn, last = batches.getLastD 0 ∧
    q.prefinalize batches m = .ok (env.value, sharesToBurn) ∧
    q.Homogeneous m batches q.lastFinalizedRequestId

/-- Requests have amounts. -/
def positiveRules : Rules where
  request bACE _ := 0 < bACE
  finalization _ _ _ _ := True

/-- No rule is kept. A claim with a valid hint pays whatever is due. -/
def noRules : Rules where
  request _ _ := True
  finalization _ _ _ _ := True

abbrev Step := StepUnder settledRules

abbrev PositiveStep := StepUnder positiveRules

abbrev AnyStep := StepUnder noRules

theorem StepUnder.any {rules : Rules} (h : StepUnder rules q q') : AnyStep q q' := by
  cases h with
  | enqueue _ h => exact .enqueue trivial h
  | finalize _ h => exact .finalize trivial h
  | claim h => exact .claim h
  | transfer h => exact .transfer h
  | other received => exact .other received

/-- The sums along the queue, the owners' sets and the checkpoints fit together. -/
structure Represented (q : WithdrawalQueue) : Prop where
  finalized_le : q.lastFinalizedRequestId ≤ q.lastRequestId
  bACE_le : ∀ i < q.lastRequestId, (q.queue i).cumulativeBACE ≤ (q.queue (i + 1)).cumulativeBACE
  shares_le :
    ∀ i < q.lastRequestId, (q.queue i).cumulativeShares ≤ (q.queue (i + 1)).cumulativeShares
  bACE_bound : ∀ i ≤ q.lastRequestId, (q.queue i).cumulativeBACE < 2 ^ 128
  /-- A claimed request is a finalized one. -/
  unclaimed : ∀ id, q.lastFinalizedRequestId < id → id ≤ q.lastRequestId →
    (q.queue id).claimed = false
  owners : ∀ id owner, id ∈ q.requestsByOwner owner ↔
    0 < id ∧ id ≤ q.lastRequestId ∧ (q.queue id).claimed = false ∧ (q.queue id).owner = owner
  checkpoint_zero : (q.checkpoints 0).fromRequestId = 0
  /-- The first checkpoint starts at the first request. -/
  checkpoint_one : 0 < q.lastFinalizedRequestId →
    0 < q.lastCheckpointIndex ∧ (q.checkpoints 1).fromRequestId = 1
  from_lt : ∀ h < q.lastCheckpointIndex,
    (q.checkpoints h).fromRequestId < (q.checkpoints (h + 1)).fromRequestId
  from_le : (q.checkpoints q.lastCheckpointIndex).fromRequestId ≤ q.lastFinalizedRequestId

theorem represented_initial (h : Initial q) : Represented q := by
  obtain ⟨q₀, env, h₀, rfl⟩ := h
  refine ⟨?_, ?_, ?_, ?_, ?_, ?_, ?_, ?_, ?_, ?_⟩ <;>
    simp [initializeQueue, h₀.lastRequestId, h₀.lastFinalizedRequestId, h₀.lastCheckpointIndex,
      h₀.requestsByOwner]
  · intro id hpos hzero
    omega
  · intro id _ hpos hzero
    omega

theorem Represented.enqueue {bACE shares requestId : Nat} {owner : Address} (hw : Represented q)
    (h : q.enqueue env bACE shares owner = .ok (q', requestId)) :
    Represented q' := by
  obtain ⟨-, hbound, -, rfl⟩ := enqueue_ok_cases h
  have hold : ∀ i ≤ q.lastRequestId, i ≠ q.lastRequestId + 1 := fun i hi => by omega
  refine ⟨?_, ?_, ?_, ?_, ?_, ?_, hw.checkpoint_zero, hw.checkpoint_one, hw.from_lt, hw.from_le⟩
  · exact Nat.le_succ_of_le hw.finalized_le
  · intro i hi
    rcases Nat.lt_succ_iff_lt_or_eq.mp hi with hi | rfl
    · simpa [Function.update_of_ne (hold i (by omega)), hi.ne] using hw.bACE_le i hi
    · simp
  · intro i hi
    rcases Nat.lt_succ_iff_lt_or_eq.mp hi with hi | rfl
    · simpa [Function.update_of_ne (hold i (by omega)), hi.ne] using hw.shares_le i hi
    · simp
  · intro i hi
    rcases Nat.le_succ_iff.mp hi with hi | rfl
    · simpa [Function.update_of_ne (hold i hi)] using hw.bACE_bound i hi
    · simpa using hbound
  · intro id hlt hi
    rcases Nat.le_succ_iff.mp hi with hi | rfl
    · simpa [Function.update_of_ne (hold id hi)] using hw.unclaimed id hlt hi
    · simp
  · intro id a
    rcases eq_or_ne id (q.lastRequestId + 1) with rfl | hne
    · have hnot : q.lastRequestId + 1 ∉ q.requestsByOwner a := fun hin => by
        have := ((hw.owners _ _).mp hin).2.1
        omega
      rcases eq_or_ne a owner with rfl | ha
      · simp
      · simp [Function.update_of_ne ha, hnot, ha.symm]
    · have hiff := hw.owners id a
      have hle : id ≤ q.lastRequestId + 1 ↔ id ≤ q.lastRequestId := by omega
      rcases eq_or_ne a owner with rfl | ha
      · simpa [Function.update_of_ne hne, hne, hle] using hiff
      · simpa [Function.update_of_ne hne, Function.update_of_ne ha, hle] using hiff

theorem Represented.finalize {last m : Nat} (hw : Represented q)
    (h : q.finalize env last m = .ok q') : Represented q' := by
  obtain ⟨hle, hlt, rfl⟩ := finalize_ok_cases h
  have hold : ∀ h ≤ q.lastCheckpointIndex, h ≠ q.lastCheckpointIndex + 1 := fun h hh => by omega
  refine ⟨hle, hw.bACE_le, hw.shares_le, hw.bACE_bound, ?_, hw.owners, ?_, ?_, ?_, ?_⟩
  · intro id hid hidle
    exact hw.unclaimed id (by simp only at hid; omega) hidle
  · simpa [Function.update_of_ne (hold 0 (by omega))] using hw.checkpoint_zero
  · intro _
    refine ⟨Nat.succ_pos _, ?_⟩
    rcases Nat.eq_zero_or_pos q.lastCheckpointIndex with hzero | hpos
    · have hnone : q.lastFinalizedRequestId = 0 := by
        have := hw.checkpoint_one
        omega
      simp [hzero, hnone]
    · have hone : (1 : Nat) ≠ q.lastCheckpointIndex + 1 := hold 1 hpos
      have hfrom : 0 < q.lastFinalizedRequestId := by
        have hgrow := hw.from_le
        have hfirst := hw.from_lt (q.lastCheckpointIndex - 1) (by omega)
        rw [Nat.sub_add_cancel hpos] at hfirst
        omega
      simpa [Function.update_of_ne hone] using (hw.checkpoint_one hfrom).2
  · intro h hh
    rcases Nat.lt_succ_iff_lt_or_eq.mp hh with hh | rfl
    · simpa [Function.update_of_ne (hold h (by omega)), hh.ne] using hw.from_lt h hh
    · have := hw.from_le
      simp
      omega
  · simp
    omega

/--
Claims and transfers change who may claim what, and nothing about the sums and checkpoints.
-/
theorem Represented.of_owners {queue : Nat → WithdrawalRequest}
    {requestsByOwner : Address → Finset Nat} (tokenApprovals : Nat → Address) (locked balance : Nat)
    (hw : Represented q)
    (hbACE : ∀ i, (queue i).cumulativeBACE = (q.queue i).cumulativeBACE)
    (hshares : ∀ i, (queue i).cumulativeShares = (q.queue i).cumulativeShares)
    (hunclaimed : ∀ id, q.lastFinalizedRequestId < id → id ≤ q.lastRequestId →
      (queue id).claimed = false)
    (howners : ∀ id owner, id ∈ requestsByOwner owner ↔
      0 < id ∧ id ≤ q.lastRequestId ∧ (queue id).claimed = false ∧ (queue id).owner = owner) :
    Represented { q with
      queue := queue, requestsByOwner := requestsByOwner, tokenApprovals := tokenApprovals,
      lockedAceAmount := locked, balance := balance } where
  finalized_le := hw.finalized_le
  bACE_le i hi := by simpa only [hbACE] using hw.bACE_le i hi
  shares_le i hi := by simpa only [hshares] using hw.shares_le i hi
  bACE_bound i hi := by simpa only [hbACE] using hw.bACE_bound i hi
  unclaimed := hunclaimed
  owners := howners
  checkpoint_zero := hw.checkpoint_zero
  checkpoint_one := hw.checkpoint_one
  from_lt := hw.from_lt
  from_le := hw.from_le

theorem Represented.claim {id hint : Nat} {accepts : Bool} (hw : Represented q)
    (h : q.claim env id hint accepts = .ok q') : Represented q' := by
  obtain ⟨hzero, hfinal, hclaimed, howner, amount, -, -, -, -, rfl⟩ := claim_ok_cases h
  refine Represented.of_owners _ _ _ hw ?_ ?_ ?_ ?_
  · intro i
    rcases eq_or_ne i id with rfl | hi <;> simp [*]
  · intro i
    rcases eq_or_ne i id with rfl | hi <;> simp [*]
  · intro i hlt hle
    have hi : i ≠ id := by omega
    simpa [hi] using hw.unclaimed i hlt hle
  · intro i a
    have hiff := hw.owners i a
    rcases eq_or_ne a (q.queue id).owner with rfl | ha
    · rcases eq_or_ne i id with rfl | hi
      · simp
      · simpa [hi] using hiff
    · rcases eq_or_ne i id with rfl | hi
      · simp only [Function.update_of_ne ha, Function.update_self]
        simp [hiff, ha.symm]
      · simpa [hi, ha] using hiff

theorem Represented.transfer {fromAddr toAddr : Address} {id : Nat} (hw : Represented q)
    (h : q.transfer env fromAddr toAddr id = .ok q') : Represented q' := by
  obtain ⟨hne, hzero, hle, hclaimed, rfl, rfl⟩ := transfer_ok_cases h
  refine Represented.of_owners _ _ _ hw ?_ ?_ ?_ ?_
  · intro i
    rcases eq_or_ne i id with rfl | hi <;> simp [*]
  · intro i
    rcases eq_or_ne i id with rfl | hi <;> simp [*]
  · intro i hlt hle
    rcases eq_or_ne i id with rfl | hi
    · simpa using hclaimed
    · simpa [hi] using hw.unclaimed i hlt hle
  · intro i a
    have hiff := hw.owners i a
    rcases eq_or_ne i id with rfl | hi
    · rcases eq_or_ne a toAddr with rfl | hto
      · simp [hclaimed, hle, Nat.pos_of_ne_zero hzero]
      · rcases eq_or_ne a (q.queue i).owner with rfl | hfrom
        · simp [hto, hto.symm]
        · simp [hto, hto.symm, hfrom, hiff, hfrom.symm]
    · rcases eq_or_ne a toAddr with rfl | hto
      · simpa [hi] using hiff
      · rcases eq_or_ne a (q.queue id).owner with rfl | hfrom
        · simpa [hi, hto] using hiff
        · simpa [hi, hto, hfrom] using hiff

/-- The queue is represented, and every request has shares. -/
structure WellFormed (q : WithdrawalQueue) : Prop where
  finalized_le : q.lastFinalizedRequestId ≤ q.lastRequestId
  bACE_le : ∀ i < q.lastRequestId, (q.queue i).cumulativeBACE ≤ (q.queue (i + 1)).cumulativeBACE
  shares_lt :
    ∀ i < q.lastRequestId, (q.queue i).cumulativeShares < (q.queue (i + 1)).cumulativeShares
  bACE_bound : ∀ i ≤ q.lastRequestId, (q.queue i).cumulativeBACE < 2 ^ 128
  /-- A claimed request is a finalized one. -/
  unclaimed : ∀ id, q.lastFinalizedRequestId < id → id ≤ q.lastRequestId →
    (q.queue id).claimed = false
  owners : ∀ id owner, id ∈ q.requestsByOwner owner ↔
    0 < id ∧ id ≤ q.lastRequestId ∧ (q.queue id).claimed = false ∧ (q.queue id).owner = owner
  checkpoint_zero : (q.checkpoints 0).fromRequestId = 0
  /-- The first checkpoint starts at the first request. -/
  checkpoint_one : 0 < q.lastFinalizedRequestId →
    0 < q.lastCheckpointIndex ∧ (q.checkpoints 1).fromRequestId = 1
  from_lt : ∀ h < q.lastCheckpointIndex,
    (q.checkpoints h).fromRequestId < (q.checkpoints (h + 1)).fromRequestId
  from_le : (q.checkpoints q.lastCheckpointIndex).fromRequestId ≤ q.lastFinalizedRequestId

theorem WellFormed.represented (hw : WellFormed q) : Represented q where
  finalized_le := hw.finalized_le
  bACE_le := hw.bACE_le
  shares_le i hi := (hw.shares_lt i hi).le
  bACE_bound := hw.bACE_bound
  unclaimed := hw.unclaimed
  owners := hw.owners
  checkpoint_zero := hw.checkpoint_zero
  checkpoint_one := hw.checkpoint_one
  from_lt := hw.from_lt
  from_le := hw.from_le

/-- Well-formed is that every request has shares, besides. -/
theorem Represented.wellFormed (hr : Represented q) (hshares : ∀ i < q.lastRequestId,
    (q.queue i).cumulativeShares < (q.queue (i + 1)).cumulativeShares) : WellFormed q where
  finalized_le := hr.finalized_le
  bACE_le := hr.bACE_le
  shares_lt := hshares
  bACE_bound := hr.bACE_bound
  unclaimed := hr.unclaimed
  owners := hr.owners
  checkpoint_zero := hr.checkpoint_zero
  checkpoint_one := hr.checkpoint_one
  from_lt := hr.from_lt
  from_le := hr.from_le

theorem wellFormed_initial (h : Initial q) : WellFormed q := by
  refine (represented_initial h).wellFormed fun i hi => ?_
  obtain ⟨q₀, env, h₀, rfl⟩ := h
  have hnone : i < q₀.lastRequestId := hi
  rw [h₀.lastRequestId] at hnone
  omega

theorem WellFormed.enqueue {bACE shares requestId : Nat} {owner : Address} (hw : WellFormed q)
    (hpos : 0 < shares) (h : q.enqueue env bACE shares owner = .ok (q', requestId)) :
    WellFormed q' := by
  refine (hw.represented.enqueue h).wellFormed ?_
  obtain ⟨-, -, -, rfl⟩ := enqueue_ok_cases h
  intro i hi
  rcases Nat.lt_succ_iff_lt_or_eq.mp hi with hi | rfl
  · have hold : i ≠ q.lastRequestId + 1 := by omega
    simpa [Function.update_of_ne hold, hi.ne] using hw.shares_lt i hi
  · simpa using hpos

/-- Calls that leave the sums alone. -/
theorem WellFormed.of_same (hw : WellFormed q) (hr : Represented q')
    (hlast : q'.lastRequestId = q.lastRequestId)
    (hshares : ∀ i, (q'.queue i).cumulativeShares = (q.queue i).cumulativeShares) :
    WellFormed q' := by
  refine hr.wellFormed fun i hi => ?_
  rw [hshares, hshares]
  exact hw.shares_lt i (hlast ▸ hi)

theorem WellFormed.finalize {last m : Nat} (hw : WellFormed q)
    (h : q.finalize env last m = .ok q') : WellFormed q' := by
  refine hw.of_same (hw.represented.finalize h) ?_ ?_
  · obtain ⟨-, -, rfl⟩ := finalize_ok_cases h
    rfl
  · obtain ⟨-, -, rfl⟩ := finalize_ok_cases h
    exact fun _ => rfl

theorem WellFormed.claim {id hint : Nat} {accepts : Bool} (hw : WellFormed q)
    (h : q.claim env id hint accepts = .ok q') : WellFormed q' := by
  refine hw.of_same (hw.represented.claim h) ?_ ?_
  · obtain ⟨-, -, -, -, amount, -, -, -, -, rfl⟩ := claim_ok_cases h
    rfl
  · obtain ⟨-, -, -, -, amount, -, -, -, -, rfl⟩ := claim_ok_cases h
    intro i
    rcases eq_or_ne i id with rfl | hi <;> simp [*]

theorem WellFormed.transfer {fromAddr toAddr : Address} {id : Nat} (hw : WellFormed q)
    (h : q.transfer env fromAddr toAddr id = .ok q') : WellFormed q' := by
  refine hw.of_same (hw.represented.transfer h) ?_ ?_
  · obtain ⟨-, -, -, -, -, rfl⟩ := transfer_ok_cases h
    rfl
  · obtain ⟨-, -, -, -, -, rfl⟩ := transfer_ok_cases h
    intro i
    rcases eq_or_ne i id with rfl | hi <;> simp [*]

theorem WellFormed.step (hw : WellFormed q) (h : Step q q') : WellFormed q' := by
  cases h with
  | enqueue hpos h => exact hw.enqueue hpos h
  | finalize _ h => exact hw.finalize h
  | claim h => exact hw.claim h
  | transfer h => exact hw.transfer h
  | other => exact ⟨hw.1, hw.2, hw.3, hw.4, hw.5, hw.6, hw.7, hw.8, hw.9, hw.10⟩

/-- Every queue a run can reach is well formed. -/
theorem wellFormed_of_reachable (h : Reachable Initial Step q) : WellFormed q :=
  h.invariant (fun _ => wellFormed_initial) fun _ _ hw hs => hw.step hs

end WithdrawalQueue

end Catalist
