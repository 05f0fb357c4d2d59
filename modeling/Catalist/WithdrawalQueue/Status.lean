import Catalist.Pool.SanityChecker
import Catalist.WithdrawalQueue.Solvency

/-!
# What the queue shows

`getWithdrawalStatus` and `getClaimableAce` of `WithdrawalQueue.sol`. The terms of a request never
change after it was made (`status_keeps_terms`). Once a request is finalized, the amount shown for it
is what its owner is paid, whenever that is (`shown_amount_is_paid`).
-/

namespace Catalist

open Solidity Transition

namespace WithdrawalQueue

variable (q : WithdrawalQueue)

/-- `getWithdrawalStatus` -/
def getWithdrawalStatus : List Nat → Call QueueError (List WithdrawalRequestStatus)
  | [] => return []
  | requestId :: requestIds => do
    let status ← q.getStatus requestId
    let statuses ← getWithdrawalStatus requestIds
    return status :: statuses

/-- `_getClaimableAce` -/
def getClaimableAceOf (requestId hint : Nat) : Call QueueError Nat := do
  require (requestId ≠ 0 ∧ requestId ≤ q.lastRequestId) (.invalidRequestId requestId)
  if q.lastFinalizedRequestId < requestId then return 0
  else if (q.queue requestId).claimed = true then return 0
  else q.calculateClaimableAce requestId hint

/-- `getClaimableAce`; there has to be a hint for each request. -/
def getClaimableAce : List Nat → List Nat → Call QueueError (List Nat)
  | [], _ => return []
  | _ :: _, [] => .error (.panic .indexOutOfBounds)
  | requestId :: requestIds, hint :: hints => do
    let claimableAce ← q.getClaimableAceOf requestId hint
    let claimableAceValues ← getClaimableAce requestIds hints
    return claimableAce :: claimableAceValues

variable {q} {q' : WithdrawalQueue} {env : Env} {id hint amount : Nat}

/-! ## The terms of a request -/

/-- What is shown of a request in a represented queue. -/
def statusOf (q : WithdrawalQueue) (id : Nat) : WithdrawalRequestStatus where
  amountOfBACE := q.amountOfBACE id
  amountOfShares := q.amountOfShares id
  owner := (q.queue id).owner
  timestamp := (q.queue id).timestamp
  isFinalized := decide (id ≤ q.lastFinalizedRequestId)
  isClaimed := (q.queue id).claimed

theorem Represented.getStatus_eq (hr : Represented q) (hpos : 0 < id) (hle : id ≤ q.lastRequestId) :
    q.getStatus id = .ok (q.statusOf id) := by
  obtain ⟨i, rfl⟩ := Nat.exists_eq_succ_of_ne_zero hpos.ne'
  unfold getStatus
  rw [require_of ⟨hpos.ne', hle⟩]
  simp only [ok_bind, Nat.succ_sub_one]
  rw [checkedSub_of (hr.bACE_le i hle), checkedSub_of (hr.shares_le i hle)]
  rfl

/-- What no call changes about the requests that exist, and what it changes one way only. -/
structure TermsKept (q q' : WithdrawalQueue) : Prop where
  frozen : Frozen q q'
  timestamp : ∀ i ≤ q.lastRequestId, (q'.queue i).timestamp = (q.queue i).timestamp
  claimed : ∀ i ≤ q.lastRequestId, (q.queue i).claimed = true → (q'.queue i).claimed = true

theorem TermsKept.refl : TermsKept q q :=
  ⟨.refl, fun _ _ => rfl, fun _ _ hclaimed => hclaimed⟩

theorem TermsKept.trans {q'' : WithdrawalQueue} (h : TermsKept q q') (h' : TermsKept q' q'') :
    TermsKept q q'' where
  frozen := h.frozen.trans h'.frozen
  timestamp i hi :=
    (h'.timestamp i (hi.trans h.frozen.lastRequestId)).trans (h.timestamp i hi)
  claimed i hi hclaimed := h'.claimed i (hi.trans h.frozen.lastRequestId) (h.claimed i hi hclaimed)

theorem termsKept_of_step (h : AnyStep q q') : TermsKept q q' := by
  have hfrozen := frozen_of_step h
  cases h with
  | enqueue _ h =>
    obtain ⟨-, -, -, rfl⟩ := enqueue_ok_cases h
    have hold : ∀ i ≤ q.lastRequestId, i ≠ q.lastRequestId + 1 := fun i hi => by omega
    refine ⟨hfrozen, fun i hi => ?_, fun i hi hclaimed => ?_⟩
    · simp only [Function.update_of_ne (hold i hi)]
    · simp only [Function.update_of_ne (hold i hi)]
      exact hclaimed
  | finalize _ h =>
    obtain ⟨-, -, rfl⟩ := finalize_ok_cases h
    exact ⟨hfrozen, fun _ _ => rfl, fun _ _ hclaimed => hclaimed⟩
  | @claim _ env id hint accepts h =>
    obtain ⟨-, -, -, -, amount, -, -, -, -, rfl⟩ := claim_ok_cases h
    refine ⟨hfrozen, fun i _ => ?_, fun i _ hclaimed => ?_⟩
    · rcases eq_or_ne i id with rfl | hi <;> simp [*]
    · rcases eq_or_ne i id with rfl | hi <;> simp [*]
  | @transfer _ env fromAddr toAddr id h =>
    obtain ⟨-, -, -, -, -, rfl⟩ := transfer_ok_cases h
    refine ⟨hfrozen, fun i _ => ?_, fun i _ hclaimed => ?_⟩
    · rcases eq_or_ne i id with rfl | hi <;> simp [*]
    · rcases eq_or_ne i id with rfl | hi <;> simp [*]
  | other => exact ⟨hfrozen, fun _ _ => rfl, fun _ _ hclaimed => hclaimed⟩

theorem termsKept_of_reachable (h : Reachable (· = q) AnyStep q') : TermsKept q q' := by
  refine h.invariant ?_ fun _ _ hkept hs => hkept.trans (termsKept_of_step hs)
  rintro _ rfl
  exact .refl

/--
**A request keeps its terms.** In every run, whatever is called: the status of a new request shows
the amounts it was made with, that it is neither finalized nor claimed, and the owner it was made
for. At every later moment the status of a request can be read, with the same amounts and the same
time; what is finalized stays finalized, what is claimed stays claimed, and only finalized requests are
claimed.
-/
theorem status_keeps_terms (h : Reachable Initial AnyStep q) :
    (∀ env bACE shares owner q₁ id, q.enqueue env bACE shares owner = .ok (q₁, id) →
      q₁.getStatus id = .ok ⟨bACE, shares, owner, env.timestamp % 2 ^ 40, false, false⟩) ∧
    ∀ id, 0 < id → id ≤ q.lastRequestId → ∃ status, q.getStatus id = .ok status ∧
      (status.isClaimed = true → status.isFinalized = true) ∧
      ∀ q', Reachable (· = q) AnyStep q' → ∃ status', q'.getStatus id = .ok status' ∧
        status'.amountOfBACE = status.amountOfBACE ∧
        status'.amountOfShares = status.amountOfShares ∧
        status'.timestamp = status.timestamp ∧
        (status.isFinalized = true → status'.isFinalized = true) ∧
        (status.isClaimed = true → status'.isClaimed = true) := by
  have hr := represented_of_reachable h
  constructor
  · intro env bACE shares owner q₁ id henqueue
    have hr₁ := hr.step (.enqueue trivial henqueue)
    have hfinal := hr.finalized_le
    obtain ⟨-, -, rfl, rfl⟩ := enqueue_ok_cases henqueue
    rw [hr₁.getStatus_eq (Nat.succ_pos _) (Nat.le_refl _)]
    simp [statusOf, amountOfBACE, amountOfShares]
    omega
  · intro id hpos hle
    refine ⟨_, hr.getStatus_eq hpos hle, fun hclaimed => ?_, fun q' hlater => ?_⟩
    · refine decide_eq_true (Nat.le_of_not_lt fun hlt => ?_)
      rw [statusOf, hr.unclaimed id hlt hle] at hclaimed
      cases hclaimed
    · have hkept := termsKept_of_reachable hlater
      have hr' := represented_of_reachable (h.trans hlater)
      obtain ⟨hbACE, hshares⟩ := hkept.frozen.amounts hle
      refine ⟨_, hr'.getStatus_eq hpos (hle.trans hkept.frozen.lastRequestId), hbACE, hshares,
        hkept.timestamp id hle, fun hfinal => ?_, hkept.claimed id hle⟩
      exact decide_eq_true ((of_decide_eq_true hfinal).trans hkept.frozen.lastFinalizedRequestId)

/-! A request is made, finalized and transferred. -/

def exampleMade : WithdrawalQueue × Nat :=
  result ((exampleBlankQueue.initializeQueue (exampleQueueEnv 0)).enqueue (exampleQueueEnv 0) 100
    100 7) (by decide +kernel)

def exampleFinalized : WithdrawalQueue :=
  result (exampleMade.1.finalize (exampleQueueEnv 100) 1 (2 * 10 ^ 27)) (by decide +kernel)

def exampleTransferred : WithdrawalQueue :=
  result (exampleFinalized.transfer (exampleQueueEnv 0) 7 8 1) (by decide +kernel)

theorem reachable_exampleFinalized : Reachable Initial Step exampleFinalized := by
  have h₀ : Reachable Initial Step (exampleBlankQueue.initializeQueue (exampleQueueEnv 0)) :=
    .init initial_exampleBlankQueue
  have h₁ : Reachable Initial Step exampleMade.1 :=
    h₀.step (@StepUnder.enqueue _ _ _ (exampleQueueEnv 0) 100 100 _ 7 (Nat.succ_pos _)
      (eq_ok_result _ (by decide +kernel)))
  exact h₁.step (@StepUnder.finalize _ _ _ (exampleQueueEnv 100) 1 (2 * 10 ^ 27)
    ⟨[1], 100, rfl, by decide +kernel, .inr (by decide +kernel), trivial⟩
    (eq_ok_result _ (by decide +kernel)))

theorem step_exampleTransferred : Step exampleFinalized exampleTransferred :=
  @StepUnder.transfer _ _ _ (exampleQueueEnv 0) 7 8 1 (eq_ok_result _ (by decide +kernel))

theorem status_keeps_terms_transferred :
    ∃ status, exampleTransferred.getStatus 1 = .ok status ∧ status.amountOfBACE = 100 ∧
      status.isFinalized = true := by
  have hstatus : exampleFinalized.getStatus 1 = .ok ⟨100, 100, 7, 1, true, false⟩ := by
    decide +kernel
  have hlast : 1 ≤ exampleFinalized.lastRequestId := by decide +kernel
  have hreachable := reachable_exampleFinalized
  have htransfer := step_exampleTransferred
  generalize exampleTransferred = transferred at *
  generalize exampleFinalized = finalized at *
  obtain ⟨-, hkeeps⟩ := status_keeps_terms (hreachable.mono fun _ _ hs => hs.any)
  obtain ⟨status, hshown, -, hlater⟩ := hkeeps 1 (by decide) hlast
  obtain rfl := Except.ok.inj (hshown.symm.trans hstatus)
  obtain ⟨status', hshown', hbACE, -, -, hfinal, -⟩ :=
    hlater transferred (.single htransfer.any)
  exact ⟨status', hshown', hbACE, hfinal rfl⟩

/-! ## What is paid -/

theorem getClaimableAceOf_of_claimed (hpos : 0 < id) (hle : id ≤ q.lastRequestId)
    (hclaimed : (q.queue id).claimed = true) (hint : Nat) : q.getClaimableAceOf id hint = .ok 0 := by
  unfold getClaimableAceOf
  rw [require_of ⟨hpos.ne', hle⟩, ok_bind]
  split
  · rfl
  · rfl

theorem getClaimableAceOf_of_pending (hid : id ∈ q.pending) (hle : id ≤ q.lastRequestId) :
    q.getClaimableAceOf id hint = q.calculateClaimableAce id hint := by
  obtain ⟨hpos, hfinal, hclaimed⟩ := mem_pending.mp hid
  unfold getClaimableAceOf
  rw [require_of ⟨hpos.ne', hle⟩, ok_bind, if_neg (Nat.not_lt.mpr hfinal),
    if_neg (by rw [hclaimed]; decide)]

/--
**The shown amount is paid.** Take any run in which requests have shares and every finalization is
of homogeneous batches and locks what `prefinalize` returns for them, and an amount that
`getClaimableAce` shows for a finalized and unclaimed request with some hint. In every later state in which the request is still unclaimed, the same amount is shown for
the same hint, and its owner at that time, with a recipient that takes the payment, is paid exactly
that amount; afterwards nothing is shown for it, with any hint.
-/
theorem shown_amount_is_paid (h : Reachable Initial Step q) (hid : id ∈ q.pending)
    (hshown : q.getClaimableAceOf id hint = .ok amount)
    (hlater : Reachable (· = q) Step q') (hid' : id ∈ q'.pending)
    (howner : (q'.queue id).owner = env.sender) :
    q'.getClaimableAceOf id hint = .ok amount ∧ amount ≤ q'.balance ∧
    ∃ q₁, q'.claim env id hint true = .ok q₁ ∧ q₁.balance = q'.balance - amount ∧
      ∀ q₂, Reachable (· = q₁) AnyStep q₂ → ∀ hint', q₂.getClaimableAceOf id hint' = .ok 0 := by
  have hw := wellFormed_of_reachable h
  have hw' := wellFormed_of_reachable (h.trans hlater)
  obtain ⟨e, hr'⟩ := represents_of_reachable (h.trans hlater)
  obtain ⟨hpos, hfinal, -⟩ := mem_pending.mp hid
  have hfinal' := (mem_pending.mp hid').2.1
  have hle' := hfinal'.trans hw'.finalized_le
  rw [getClaimableAceOf_of_pending hid (hfinal.trans hw.finalized_le)] at hshown
  have hfrozen := frozen_of_reachable (hlater.mono fun _ _ hs => hs.any)
  have hamount : q'.calculateClaimableAce id hint = .ok amount := by
    rw [hfrozen.calculateClaimableAce_eq hw.represented hfinal]
    exact hshown
  obtain ⟨q₁, hclaim⟩ := (claim_of_pending hw' hr' hid' howner hamount true).resolve_right
    fun hfails => absurd hfails.1 (by decide)
  obtain ⟨-, -, -, -, paid, hpaid, -, hbalance, -, heq⟩ := claim_ok_cases hclaim
  have hcompute := calculateClaimableAce_congr
    (Function.update q'.requestsByOwner (q'.queue id).owner
      ((q'.requestsByOwner (q'.queue id).owner).erase id)) id hint
    (fun i => (cumulative_claimed q' id i).1) (fun i => (cumulative_claimed q' id i).2)
  obtain rfl : amount = paid := Except.ok.inj (hamount.symm.trans (hcompute.symm.trans hpaid))
  refine ⟨(getClaimableAceOf_of_pending hid' hle').trans hamount, hbalance, q₁, hclaim, ?_, ?_⟩
  · rw [heq]
  · intro q₂ hlater₂ hint'
    have hkept := termsKept_of_reachable hlater₂
    have hle₁ : id ≤ q₁.lastRequestId := by
      rw [heq]
      exact hle'
    have hclaimed : (q₁.queue id).claimed = true := by
      rw [heq]
      simp only [Function.update_self]
    exact getClaimableAceOf_of_claimed hpos (hle₁.trans hkept.frozen.lastRequestId)
      (hkept.claimed id hle₁ hclaimed) hint'

theorem shown_amount_is_paid_transferred :
    exampleTransferred.getClaimableAceOf 1 1 = .ok 100 ∧ 100 ≤ exampleTransferred.balance := by
  have hshown : exampleFinalized.getClaimableAceOf 1 1 = .ok 100 := by decide +kernel
  have hpending : 1 ∈ exampleFinalized.pending := by decide +kernel
  have hpending' : 1 ∈ exampleTransferred.pending := by decide +kernel
  have howner : (exampleTransferred.queue 1).owner = 8 := by decide +kernel
  have hreachable := reachable_exampleFinalized
  have htransfer := step_exampleTransferred
  generalize exampleTransferred = transferred at *
  generalize exampleFinalized = finalized at *
  obtain ⟨hshown', hbalance, -⟩ := @shown_amount_is_paid _ _ ⟨8, 0, 1, Nat.one_pos⟩ 1 1 100
    hreachable hpending hshown (.single htransfer) hpending' howner
  exact ⟨hshown', hbalance⟩

end WithdrawalQueue

end Catalist
