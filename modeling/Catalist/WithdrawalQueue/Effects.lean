import Catalist.WithdrawalQueue.Base
import Catalist.Lib.ShareRate
import Mathlib.Tactic.Common

/-!
# What each function of the withdrawal queue does

One lemma for each function: the guards a successful call has passed, and the storage it leaves.
The proofs about runs use these lemmas and never unfold a function.
-/

namespace Catalist

open Solidity ShareRate

namespace WithdrawalQueue

variable {q q' : WithdrawalQueue} {env : Env}

/-! ## Requests -/

theorem enqueue_ok_cases {bACE shares requestId : Nat} {owner : Address}
    (h : q.enqueue env bACE shares owner = .ok (q', requestId)) :
    (q.queue q.lastRequestId).cumulativeShares + shares < 2 ^ 128 ∧
    (q.queue q.lastRequestId).cumulativeBACE + bACE < 2 ^ 128 ∧
    requestId = q.lastRequestId + 1 ∧
    q' = { q with
      lastRequestId := q.lastRequestId + 1
      queue := Function.update q.queue (q.lastRequestId + 1)
        { cumulativeBACE := (q.queue q.lastRequestId).cumulativeBACE + bACE,
          cumulativeShares := (q.queue q.lastRequestId).cumulativeShares + shares, owner := owner,
          timestamp := env.timestamp % 2 ^ 40, claimed := false,
          reportTimestamp := q.lastReportTimestamp % 2 ^ 40 }
      requestsByOwner := Function.update q.requestsByOwner owner
        (insert (q.lastRequestId + 1) (q.requestsByOwner owner)) } := by
  simp only [enqueue, bind_eq_ok, pure_eq_ok, checkedAdd_eq_ok, ensure_eq_ok, Prod.mk.injEq] at h
  obtain ⟨_, ⟨hshares, rfl⟩, _, ⟨hbACE, rfl⟩, _, ⟨_, rfl⟩, _, _, rfl, rfl⟩ := h
  exact ⟨hshares, hbACE, rfl, rfl⟩

/-! ## Finalization -/

theorem prefinalize_ok_cases {batches : List Nat} {m eth burn : Nat}
    (h : q.prefinalize batches m = .ok (eth, burn)) :
    m ≠ 0 ∧ batches ≠ [] ∧ q.lastFinalizedRequestId < batches.headD 0 ∧
    batches.getLastD 0 ≤ q.lastRequestId ∧
    q.prefinalizeLoop m batches q.lastFinalizedRequestId 0 0 = .ok (eth, burn) := by
  simpa [prefinalize] using h

theorem prefinalizeLoop_cons_ok_cases {m e prev eth burn : Nat} {rest : List Nat} {r : Nat × Nat}
    (h : q.prefinalizeLoop m (e :: rest) prev eth burn = .ok r) :
    prev < e ∧ ∃ batch batchEth,
      calcBatch (q.queue prev) (q.queue e) = .ok batch ∧ batchAce batch m = .ok batchEth ∧
      q.prefinalizeLoop m rest e (eth + batchEth) (burn + batch.shares) = .ok r := by
  simp only [prefinalizeLoop, bind_eq_ok, require_eq_ok, checkedAdd_eq_ok] at h
  obtain ⟨_, hlt, batch, hbatch, batchEth, heth, _, ⟨_, rfl⟩, _, ⟨_, rfl⟩, hrest⟩ := h
  exact ⟨hlt, batch, batchEth, hbatch, heth, hrest⟩

theorem finalizeInternal_ok_cases {last amount m : Nat}
    (h : q.finalizeInternal last amount m = .ok q') :
    last ≤ q.lastRequestId ∧ q.lastFinalizedRequestId < last ∧
    q' = { q with
      checkpoints := Function.update q.checkpoints (q.lastCheckpointIndex + 1)
        { fromRequestId := q.lastFinalizedRequestId + 1, maxShareRate := m }
      lastCheckpointIndex := q.lastCheckpointIndex + 1
      lockedAceAmount := q.lockedAceAmount + amount
      lastFinalizedRequestId := last } := by
  simp only [finalizeInternal, bind_eq_ok, pure_eq_ok, require_eq_ok, checkedAdd_eq_ok,
    checkedSub_eq_ok] at h
  obtain ⟨_, hle, _, hlt, _, ⟨_, rfl⟩, _, _, _, ⟨_, rfl⟩, _, ⟨_, rfl⟩, _, ⟨_, rfl⟩, _, _, rfl⟩ := h
  exact ⟨hle, hlt, rfl⟩

theorem finalize_ok_cases {last m : Nat} (h : q.finalize env last m = .ok q') :
    last ≤ q.lastRequestId ∧ q.lastFinalizedRequestId < last ∧
    q' = { q with
      balance := q.balance + env.value
      checkpoints := Function.update q.checkpoints (q.lastCheckpointIndex + 1)
        { fromRequestId := q.lastFinalizedRequestId + 1, maxShareRate := m }
      lastCheckpointIndex := q.lastCheckpointIndex + 1
      lockedAceAmount := q.lockedAceAmount + env.value
      lastFinalizedRequestId := last } := by
  simp only [finalize, bind_eq_ok, require_eq_ok] at h
  obtain ⟨_, _, _, _, hinternal⟩ := h
  exact finalizeInternal_ok_cases hinternal

theorem finalize_value_le {last m : Nat} (h : q.finalize env last m = .ok q') :
    env.value ≤ (q.queue last).cumulativeBACE - (q.queue q.lastFinalizedRequestId).cumulativeBACE := by
  simp only [finalize, finalizeInternal, bind_eq_ok, require_eq_ok, checkedSub_eq_ok] at h
  obtain ⟨_, _, _, _, _, _, _, _, _, ⟨_, rfl⟩, _, hle, _⟩ := h
  exact hle

/-! ## Claims and transfers -/

theorem claim_ok_cases {id hint : Nat} {accepts : Bool} (h : q.claim env id hint accepts = .ok q') :
    id ≠ 0 ∧ id ≤ q.lastFinalizedRequestId ∧ (q.queue id).claimed = false ∧
    (q.queue id).owner = env.sender ∧ ∃ amount,
      calculateClaimableAce { q with
        queue := Function.update q.queue id { q.queue id with claimed := true }
        requestsByOwner := Function.update q.requestsByOwner (q.queue id).owner
          ((q.requestsByOwner (q.queue id).owner).erase id) } id hint = .ok amount ∧
      amount ≤ q.lockedAceAmount ∧ amount ≤ q.balance ∧ accepts = true ∧
      q' = { q with
        queue := Function.update q.queue id { q.queue id with claimed := true }
        requestsByOwner := Function.update q.requestsByOwner (q.queue id).owner
          ((q.requestsByOwner (q.queue id).owner).erase id)
        lockedAceAmount := q.lockedAceAmount - amount
        balance := q.balance - amount } := by
  simp only [claim, sendValue, bind_eq_ok, pure_eq_ok, require_eq_ok, ensure_eq_ok,
    checkedSub_eq_ok] at h
  obtain ⟨_, hzero, _, hfinal, _, hclaimed, _, howner, _, _, amount, hamount, _, ⟨hlocked, rfl⟩,
    _, hbalance, _, haccepts, rfl⟩ := h
  exact ⟨hzero, hfinal, hclaimed, howner, amount, hamount, hlocked, hbalance, haccepts, rfl⟩

theorem transfer_ok_cases {fromAddr toAddr : Address} {id : Nat}
    (h : q.transfer env fromAddr toAddr id = .ok q') :
    toAddr ≠ fromAddr ∧ id ≠ 0 ∧ id ≤ q.lastRequestId ∧ (q.queue id).claimed = false ∧
    fromAddr = (q.queue id).owner ∧
    q' = { q with
      tokenApprovals := Function.update q.tokenApprovals id 0
      queue := Function.update q.queue id { q.queue id with owner := toAddr }
      requestsByOwner :=
        Function.update (Function.update q.requestsByOwner fromAddr
          ((q.requestsByOwner fromAddr).erase id)) toAddr
          (insert id (q.requestsByOwner toAddr)) } := by
  simp only [transfer, bind_eq_ok, pure_eq_ok, require_eq_ok, ensure_eq_ok] at h
  obtain ⟨_, _, _, hne, _, ⟨hzero, hle⟩, _, hclaimed, _, howner, _, _, _, _, _, _, rfl⟩ := h
  rw [Function.update_of_ne hne]
  exact ⟨hne, hzero, hle, hclaimed, howner, rfl⟩

/-- Who may transfer a request. -/
theorem transfer_authorized {fromAddr toAddr : Address} {id : Nat}
    (h : q.transfer env fromAddr toAddr id = .ok q') :
    fromAddr = env.sender ∨ q.operatorApprovals fromAddr env.sender = true ∨
      q.tokenApprovals id = env.sender := by
  simp only [transfer, bind_eq_ok, require_eq_ok] at h
  obtain ⟨_, _, _, _, _, _, _, _, _, _, _, hauthorized, -⟩ := h
  exact hauthorized

/-- The state in which `_claim` computes the amount has the sums of the state before. -/
theorem calculateClaimableAce_congr {queue : Nat → WithdrawalRequest}
    (requestsByOwner : Address → Finset Nat) (id hint : Nat)
    (hbACE : ∀ i, (queue i).cumulativeBACE = (q.queue i).cumulativeBACE)
    (hshares : ∀ i, (queue i).cumulativeShares = (q.queue i).cumulativeShares) :
    calculateClaimableAce { q with queue := queue, requestsByOwner := requestsByOwner } id hint
      = q.calculateClaimableAce id hint := by
  simp only [calculateClaimableAce, calcBatch, hbACE, hshares]

/-- Marking a request as claimed keeps its sums. -/
theorem cumulative_claimed (q : WithdrawalQueue) (id i : Nat) :
    (Function.update q.queue id { q.queue id with claimed := true } i).cumulativeBACE
      = (q.queue i).cumulativeBACE ∧
    (Function.update q.queue id { q.queue id with claimed := true } i).cumulativeShares
      = (q.queue i).cumulativeShares := by
  rcases eq_or_ne i id with rfl | hi <;> simp [*]

/-- A claim pays what was due. -/
theorem claim_pays {id hint : Nat} {accepts : Bool} (h : q.claim env id hint accepts = .ok q') :
    ∃ amount, q.calculateClaimableAce id hint = .ok amount ∧ q'.balance + amount = q.balance := by
  obtain ⟨-, -, -, -, amount, hamount, -, hbalance, -, rfl⟩ := claim_ok_cases h
  rw [calculateClaimableAce_congr _ _ _ (fun i => (cumulative_claimed q id i).1)
    (fun i => (cumulative_claimed q id i).2)] at hamount
  exact ⟨amount, hamount, Nat.sub_add_cancel hbalance⟩

/-! ## Approvals -/

theorem approve_ok_cases {toAddr : Address} {id : Nat} (h : q.approve env toAddr id = .ok q') :
    id ≠ 0 ∧ id ≤ q.lastRequestId ∧ (q.queue id).claimed = false ∧
    ((q.queue id).owner = env.sender ∨ q.operatorApprovals (q.queue id).owner env.sender = true) ∧
    q' = { q with tokenApprovals := Function.update q.tokenApprovals id toAddr } := by
  simp only [approve, ownerOf, bind_eq_ok, pure_eq_ok, require_eq_ok] at h
  obtain ⟨_, ⟨_, ⟨hzero, hle⟩, _, hclaimed, rfl⟩, _, _, _, hauthorized, rfl⟩ := h
  exact ⟨hzero, hle, hclaimed, hauthorized.imp_left Eq.symm, rfl⟩

theorem setApprovalForAll_ok_cases {operator : Address} {approved : Bool}
    (h : q.setApprovalForAll env operator approved = .ok q') :
    q' = { q with
      operatorApprovals := Function.update q.operatorApprovals env.sender
        (Function.update (q.operatorApprovals env.sender) operator approved) } := by
  simp only [setApprovalForAll, bind_eq_ok, pure_eq_ok, require_eq_ok] at h
  obtain ⟨_, _, rfl⟩ := h
  rfl

end WithdrawalQueue

end Catalist
