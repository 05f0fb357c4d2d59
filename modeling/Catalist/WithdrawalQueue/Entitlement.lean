import Catalist.WithdrawalQueue.Callbacks
import Catalist.WithdrawalQueue.Representation

/-!
# Only the entitled move or cash a request

What an action does to one request is one of four things (`Performs.cases`): it transfers it, approves
an address for it, claims it, or leaves it alone. The laws about owners, approvals and payments in
any run are read off these cases.
-/

namespace Catalist

open Solidity Transition

/-- The action transfers, approves or claims the request. -/
def QueueAction.Concerns (action : QueueAction) (id : Nat) : Prop :=
  match action with
  | .approve _ _ requestId => requestId = id
  | .transfer _ _ _ requestId => requestId = id
  | .claim _ _ requestId => requestId = id
  | _ => False

namespace WithdrawalQueue

variable {q q' : WithdrawalQueue} {action : QueueAction} {id : Nat}

/-! ## What an action does to a request -/

/-- What the queue knows of a request's owner is the same. -/
structure SameTitle (q q' : WithdrawalQueue) (id : Nat) : Prop where
  owner : (q'.queue id).owner = (q.queue id).owner
  tokenApproval : q'.tokenApprovals id = q.tokenApprovals id
  claimed : (q'.queue id).claimed = (q.queue id).claimed

/-- The sender transfers the request to another owner. -/
structure Transferred (q q' : WithdrawalQueue) (id : Nat) (sender toAddr : Address) : Prop where
  unclaimed : (q.queue id).claimed = false
  authorized : (q.queue id).owner = sender ∨
    q.operatorApprovals (q.queue id).owner sender = true ∨ q.tokenApprovals id = sender
  sender_ne : sender ≠ 0
  owner : (q'.queue id).owner = toAddr
  tokenApproval : q'.tokenApprovals id = 0
  claimed : (q'.queue id).claimed = false

/-- The sender approves an address for the request. -/
structure Approved (q q' : WithdrawalQueue) (id : Nat) (sender toAddr : Address) : Prop where
  unclaimed : (q.queue id).claimed = false
  authorized : (q.queue id).owner = sender ∨
    q.operatorApprovals (q.queue id).owner sender = true
  owner : (q'.queue id).owner = (q.queue id).owner
  tokenApproval : q'.tokenApprovals id = toAddr
  claimed : (q'.queue id).claimed = false

/-- The owner is paid for the request. -/
structure Claimed (q q' : WithdrawalQueue) (id : Nat) (sender : Address) : Prop where
  finalized : id ≤ q.lastFinalizedRequestId
  unclaimed : (q.queue id).claimed = false
  sender_eq : (q.queue id).owner = sender
  paid : ∃ hint amount, q.calculateClaimableAce id hint = .ok amount ∧
    q'.balance + amount = q.balance
  owner : (q'.queue id).owner = (q.queue id).owner
  tokenApproval : q'.tokenApprovals id = q.tokenApprovals id
  claimed : (q'.queue id).claimed = true

theorem Performs.lastRequestId_le (h : Performs q action q') :
    q.lastRequestId ≤ q'.lastRequestId := by
  cases h with
  | request env h =>
    obtain ⟨-, -, -, rfl⟩ := enqueue_ok_cases h
    exact Nat.le_succ _
  | finalize env h =>
    obtain ⟨-, -, rfl⟩ := finalize_ok_cases h
    exact Nat.le_refl _
  | approve env h =>
    obtain ⟨-, -, -, -, rfl⟩ := approve_ok_cases h
    exact Nat.le_refl _
  | setApprovalForAll env h =>
    rw [setApprovalForAll_ok_cases h]
  | transfer env h =>
    obtain ⟨-, -, -, -, -, rfl⟩ := transfer_ok_cases h
    exact Nat.le_refl _
  | claim env h =>
    obtain ⟨-, -, -, -, _, -, -, -, -, rfl⟩ := claim_ok_cases h
    exact Nat.le_refl _
  | other => exact Nat.le_refl _

theorem sameTitle_of (hqueue : q'.queue id = q.queue id)
    (happroval : q'.tokenApprovals id = q.tokenApprovals id) : SameTitle q q' id := by
  refine ⟨?_, happroval, ?_⟩
  · rw [hqueue]
  · rw [hqueue]

/-- **What an action does to a request.** -/
theorem Performs.cases (h : Performs q action q') (hid : id ≤ q.lastRequestId) :
    (∃ sender toAddr, action = .transfer sender (q.queue id).owner toAddr id ∧
      Transferred q q' id sender toAddr) ∨
    (∃ sender toAddr, action = .approve sender toAddr id ∧ Approved q q' id sender toAddr) ∨
    (∃ sender recipient, action = .claim sender recipient id ∧ Claimed q q' id sender) ∨
    (¬ action.Concerns id ∧ SameTitle q q' id) := by
  cases h with
  | request env h =>
    obtain ⟨-, -, -, rfl⟩ := enqueue_ok_cases h
    -- the new request is behind all that exist
    have hne : id ≠ q.lastRequestId + 1 := by omega
    exact .inr (.inr (.inr ⟨not_false, sameTitle_of (Function.update_of_ne hne _ _) rfl⟩))
  | finalize env h =>
    obtain ⟨-, -, rfl⟩ := finalize_ok_cases h
    exact .inr (.inr (.inr ⟨not_false, rfl, rfl, rfl⟩))
  | @approve _ env toAddr requestId h =>
    obtain ⟨-, -, hclaimed, hauthorized, rfl⟩ := approve_ok_cases h
    by_cases hsame : requestId = id
    · subst hsame
      exact .inr (.inl ⟨_, _, rfl, hclaimed, hauthorized, rfl, Function.update_self .., hclaimed⟩)
    · refine .inr (.inr (.inr ⟨hsame, sameTitle_of rfl ?_⟩))
      exact Function.update_of_ne (Ne.symm hsame) _ _
  | setApprovalForAll env h =>
    rw [setApprovalForAll_ok_cases h]
    exact .inr (.inr (.inr ⟨not_false, rfl, rfl, rfl⟩))
  | @transfer _ env fromAddr toAddr requestId h =>
    have hauthorized := transfer_authorized h
    obtain ⟨-, -, -, hclaimed, rfl, rfl⟩ := transfer_ok_cases h
    by_cases hsame : requestId = id
    · subst hsame
      have hself : Function.update q.queue requestId
          { q.queue requestId with owner := toAddr } requestId =
          { q.queue requestId with owner := toAddr } := Function.update_self ..
      exact .inl ⟨_, toAddr, rfl, hclaimed, hauthorized, env.sender_ne,
        congrArg WithdrawalRequest.owner hself, Function.update_self ..,
        (congrArg WithdrawalRequest.claimed hself).trans hclaimed⟩
    · have hne : id ≠ requestId := Ne.symm hsame
      exact .inr (.inr (.inr ⟨hsame, sameTitle_of (Function.update_of_ne hne _ _)
        (Function.update_of_ne hne _ _)⟩))
  | @claim _ env recipient requestId hint h =>
    obtain ⟨amount, hamount, hbalance⟩ := claim_pays h
    obtain ⟨-, hfinal, hclaimed, howner, _, -, -, -, -, rfl⟩ := claim_ok_cases h
    by_cases hsame : requestId = id
    · subst hsame
      have hself : Function.update q.queue requestId
          { q.queue requestId with claimed := true } requestId =
          { q.queue requestId with claimed := true } := Function.update_self ..
      have howner' := congrArg WithdrawalRequest.owner hself
      have hclaimed' := congrArg WithdrawalRequest.claimed hself
      exact .inr (.inr (.inl ⟨_, recipient, rfl, hfinal, hclaimed, howner,
        ⟨hint, amount, hamount, hbalance⟩, howner', rfl, hclaimed'⟩))
    · exact .inr (.inr (.inr ⟨hsame,
        sameTitle_of (Function.update_of_ne (Ne.symm hsame) _ _) rfl⟩))
  | other => exact .inr (.inr (.inr ⟨not_false, rfl, rfl, rfl⟩))

/-- Ace leaves the queue in claims only. -/
theorem Performs.balance_le (h : Performs q action q')
    (hclaim : ∀ sender recipient id, action ≠ .claim sender recipient id) :
    q.balance ≤ q'.balance := by
  cases h with
  | request env h =>
    obtain ⟨-, -, -, rfl⟩ := enqueue_ok_cases h
    exact Nat.le_refl _
  | finalize env h =>
    obtain ⟨-, -, rfl⟩ := finalize_ok_cases h
    exact Nat.le_add_right _ _
  | approve env h =>
    obtain ⟨-, -, -, -, rfl⟩ := approve_ok_cases h
    exact Nat.le_refl _
  | setApprovalForAll env h =>
    rw [setApprovalForAll_ok_cases h]
  | transfer env h =>
    obtain ⟨-, -, -, -, -, rfl⟩ := transfer_ok_cases h
    exact Nat.le_refl _
  | claim env h => exact absurd rfl (hclaim _ _ _)
  | other => exact Nat.le_add_right _ _

/-! ## A claimed request -/

/-- The request exists and is claimed. -/
def IsClaimed (id : Nat) (q : WithdrawalQueue) : Prop :=
  id ≤ q.lastRequestId ∧ (q.queue id).claimed = true

/-- Nothing can be done with a claimed request, and it stays claimed. -/
theorem Performs.of_claimed (h : Performs q action q') (hclaimed : IsClaimed id q) :
    ¬ action.Concerns id ∧ IsClaimed id q' := by
  obtain ⟨hid, hclaimed⟩ := hclaimed
  have hid' := hid.trans h.lastRequestId_le
  rcases h.cases hid with ⟨_, _, -, ht⟩ | ⟨_, _, -, ha⟩ | ⟨_, _, -, hc⟩ | ⟨hother, hsame⟩
  · cases ht.unclaimed.symm.trans hclaimed
  · cases ha.unclaimed.symm.trans hclaimed
  · cases hc.unclaimed.symm.trans hclaimed
  · exact ⟨hother, hid', hsame.claimed.trans hclaimed⟩

/-! ## Approvals -/

/-- The owner has approved the operator for all its requests, and not taken it back since. -/
def ApprovedForAll (history : List (Moment WithdrawalQueue QueueAction))
    (owner operator : Address) : Prop :=
  Since (·.action = .setApprovalForAll owner operator true)
    (·.action ≠ .setApprovalForAll owner operator false) history

/-- The sender owns the request, or is approved for all by its owner. -/
def OwnerOrOperator (past : List (Moment WithdrawalQueue QueueAction)) (q : WithdrawalQueue)
    (id : Nat) (sender : Address) : Prop :=
  sender = (q.queue id).owner ∨
    (q.operatorApprovals (q.queue id).owner sender = true ∧
      ApprovedForAll past (q.queue id).owner sender)

/--
The address was approved for the request by its owner or an operator of the owner, and since then
neither its owner nor the approval has changed.
-/
def ApprovedSince (history : List (Moment WithdrawalQueue QueueAction)) (id : Nat)
    (approved : Address) : Prop :=
  ∃ past moment later sender, history = past ++ moment :: later ∧
    moment.action = .approve sender approved id ∧
    OwnerOrOperator past moment.before id sender ∧
    ∀ m ∈ later, (m.after.queue id).owner = (m.before.queue id).owner ∧
      ∀ sender toAddr, m.action ≠ .approve sender toAddr id

/-- The approvals of the storage were given in the run, and still stand. -/
structure Approvals (w : QueueWorld) : Prop where
  operators : ∀ owner operator, w.state.operatorApprovals owner operator = true →
    ApprovedForAll w.history owner operator
  requests : ∀ id, w.state.tokenApprovals id ≠ 0 →
    id ≤ w.state.lastRequestId ∧ ApprovedSince w.history id (w.state.tokenApprovals id)

/-- An approval for all changes in `setApprovalForAll` of the owner only. -/
theorem Performs.operatorApprovals_cases (h : Performs q action q') (owner operator : Address) :
    action = .setApprovalForAll owner operator (q'.operatorApprovals owner operator) ∨
    (q'.operatorApprovals owner operator = q.operatorApprovals owner operator ∧
      ∀ approved, action ≠ .setApprovalForAll owner operator approved) := by
  cases h with
  | request env h =>
    obtain ⟨-, -, -, rfl⟩ := enqueue_ok_cases h
    exact .inr ⟨rfl, nofun⟩
  | finalize env h =>
    obtain ⟨-, -, rfl⟩ := finalize_ok_cases h
    exact .inr ⟨rfl, nofun⟩
  | approve env h =>
    obtain ⟨-, -, -, -, rfl⟩ := approve_ok_cases h
    exact .inr ⟨rfl, nofun⟩
  | @setApprovalForAll _ env operator' approved h =>
    rw [setApprovalForAll_ok_cases h]
    by_cases howner : owner = env.sender
    · subst howner
      by_cases hoperator : operator = operator'
      · subst hoperator
        exact .inl (by simp only [Function.update_self])
      · refine .inr ⟨by simp only [Function.update_self, Function.update_of_ne hoperator], ?_⟩
        rintro _ ⟨⟩
        exact hoperator rfl
    · refine .inr ⟨by simp only [Function.update_of_ne howner], ?_⟩
      rintro _ ⟨⟩
      exact howner rfl
  | transfer env h =>
    obtain ⟨-, -, -, -, -, rfl⟩ := transfer_ok_cases h
    exact .inr ⟨rfl, nofun⟩
  | claim env h =>
    obtain ⟨-, -, -, -, _, -, -, -, -, rfl⟩ := claim_ok_cases h
    exact .inr ⟨rfl, nofun⟩
  | other => exact .inr ⟨rfl, nofun⟩

theorem Approvals.ownerOrOperator {w : QueueWorld} (h : Approvals w) {sender : Address}
    (hauthorized : (w.state.queue id).owner = sender ∨
      w.state.operatorApprovals (w.state.queue id).owner sender = true) :
    OwnerOrOperator w.history w.state id sender :=
  hauthorized.imp Eq.symm fun hoperator => ⟨hoperator, h.operators _ _ hoperator⟩

theorem ApprovedSince.append {history : List (Moment WithdrawalQueue QueueAction)}
    {approved : Address} {moment : Moment WithdrawalQueue QueueAction}
    (h : ApprovedSince history id approved)
    (howner : (moment.after.queue id).owner = (moment.before.queue id).owner)
    (happroval : ∀ sender toAddr, moment.action ≠ .approve sender toAddr id) :
    ApprovedSince (history ++ [moment]) id approved := by
  obtain ⟨past, given, later, sender, rfl, hgiven, hauthorized, hlater⟩ := h
  refine ⟨past, given, later ++ [moment], sender, by simp, hgiven, hauthorized, ?_⟩
  intro m hm
  rcases List.mem_append.mp hm with hm | hm
  · exact hlater m hm
  · rw [List.mem_singleton.mp hm]
    exact ⟨howner, happroval⟩

/-- The storage below `lastRequestId` only: no request that is yet to come has an approval. -/
theorem Performs.tokenApprovals_of_gt (h : Performs q action q') (hid : q.lastRequestId < id) :
    q'.tokenApprovals id = q.tokenApprovals id := by
  cases h with
  | request env h =>
    obtain ⟨-, -, -, rfl⟩ := enqueue_ok_cases h
    rfl
  | finalize env h =>
    obtain ⟨-, -, rfl⟩ := finalize_ok_cases h
    rfl
  | approve env h =>
    obtain ⟨-, hle, -, -, rfl⟩ := approve_ok_cases h
    exact Function.update_of_ne (by omega) _ _
  | setApprovalForAll env h =>
    rw [setApprovalForAll_ok_cases h]
  | transfer env h =>
    obtain ⟨-, -, hle, -, -, rfl⟩ := transfer_ok_cases h
    exact Function.update_of_ne (by omega) _ _
  | claim env h =>
    obtain ⟨-, -, -, -, _, -, -, -, -, rfl⟩ := claim_ok_cases h
    rfl
  | other => rfl

theorem Approvals.operators_act {w : QueueWorld} (h : Approvals w)
    (hs : Performs w.state action q') (owner operator : Address)
    (happroved : q'.operatorApprovals owner operator = true) :
    ApprovedForAll (w.record action q').history owner operator := by
  rcases hs.operatorApprovals_cases owner operator with haction | ⟨hkept, hother⟩
  · rw [happroved] at haction
    exact since_append_self haction
  · rw [hkept] at happroved
    exact (h.operators owner operator happroved).append (hother false)

theorem Approvals.requests_act {w : QueueWorld} (h : Approvals w)
    (hs : Performs w.state action q') (id : Nat) (happroved : q'.tokenApprovals id ≠ 0) :
    id ≤ q'.lastRequestId ∧
      ApprovedSince (w.record action q').history id (q'.tokenApprovals id) := by
  by_cases hid : id ≤ w.state.lastRequestId
  · refine ⟨hid.trans hs.lastRequestId_le, ?_⟩
    rcases hs.cases hid with ⟨_, _, -, ht⟩ | ⟨sender, toAddr, hact, ha⟩ | ⟨_, _, hact, hc⟩ |
      ⟨hother, hsame⟩
    · -- a transfer leaves no approval
      exact absurd ht.tokenApproval happroved
    · rw [ha.tokenApproval]
      exact ⟨w.history, ⟨w.state, action, q'⟩, [], sender, rfl, hact,
        h.ownerOrOperator ha.authorized, nofun⟩
    · rw [hc.tokenApproval] at happroved ⊢
      refine (h.requests id happroved).2.append hc.owner fun sender toAddr => ?_
      rw [hact]
      nofun
    · rw [hsame.tokenApproval] at happroved ⊢
      refine (h.requests id happroved).2.append hsame.owner ?_
      rintro sender toAddr rfl
      exact hother rfl
  · rw [hs.tokenApprovals_of_gt (Nat.not_le.mp hid)] at happroved
    exact absurd (h.requests id happroved).1 hid

theorem approvals_of_reachable {w : QueueWorld}
    (h : Reachable (Recorded.Starts Deployed) (Recorded.Acts Performs) w) : Approvals w := by
  refine h.invariant ?_ ?_
  · rintro w ⟨hdeployed, -⟩
    refine ⟨fun owner operator happroved => ?_, fun id happroved => ?_⟩
    · rw [hdeployed.operatorApprovals owner operator] at happroved
      cases happroved
    · exact absurd (hdeployed.tokenApprovals id) happroved
  · rintro w _ hw ⟨hs⟩
    exact ⟨hw.operators_act hs, hw.requests_act hs⟩

/-! ## Runs -/

/-- The actions are among the calls for which the storage is known to fit. -/
theorem Performs.anyStep (h : Performs q action q') : AnyStep q q' := by
  cases h with
  | request env h => exact .enqueue trivial h
  | finalize env h => exact .finalize trivial h
  | approve env h =>
    obtain ⟨-, -, -, -, rfl⟩ := approve_ok_cases h
    exact .other 0
  | setApprovalForAll env h =>
    rw [setApprovalForAll_ok_cases h]
    exact .other 0
  | transfer env h => exact .transfer h
  | claim env h => exact .claim h
  | other received => exact .other received

theorem represented_of_run {w : QueueWorld}
    (h : Reachable (Recorded.Starts Deployed) (Recorded.Acts Performs) w) : Represented w.state := by
  induction h with
  | init h =>
    exact represented_initial h.1.initial
  | step _ hs ih =>
    obtain ⟨hperforms⟩ := hs
    exact ih.step hperforms.anyStep

section moments

variable {w : QueueWorld} {past later : List (Moment WithdrawalQueue QueueAction)}
  {moment : Moment WithdrawalQueue QueueAction}

theorem starts_le {w₀ : QueueWorld} (h : Recorded.Starts Deployed w₀) :
    w₀.history.length ≤ past.length := by
  rw [h.2]
  exact Nat.zero_le _

theorem claimed_of_moment
    (hrun : Reachable (Recorded.Starts Deployed) (Recorded.Acts Performs) w)
    (hhistory : w.history = past ++ moment :: later) {sender recipient : Address}
    (haction : moment.action = .claim sender recipient id) :
    Claimed moment.before moment.after id sender ∧ IsClaimed id moment.after := by
  obtain ⟨hbefore, hperforms, -⟩ := hrun.cut (fun _ => starts_le) hhistory
  have hfinal : id ≤ moment.before.lastFinalizedRequestId := by
    rw [haction] at hperforms
    cases hperforms with
    | claim env h => exact (claim_ok_cases h).2.1
  have hid := hfinal.trans (represented_of_run hbefore).finalized_le
  rcases hperforms.cases hid with ⟨_, _, hact, -⟩ | ⟨_, _, hact, -⟩ | ⟨_, _, hact, hc⟩ | ⟨hother, -⟩
  · rw [haction] at hact
    cases hact
  · rw [haction] at hact
    cases hact
  · rw [haction] at hact
    cases hact
    exact ⟨hc, hid.trans hperforms.lastRequestId_le, hc.claimed⟩
  · rw [haction] at hother
    exact absurd rfl hother

/-- After its claim, nothing is done with a request. -/
theorem not_concerns_of_later
    (hrun : Reachable (Recorded.Starts Deployed) (Recorded.Acts Performs) w)
    (hhistory : w.history = past ++ moment :: later) {sender recipient : Address}
    (haction : moment.action = .claim sender recipient id) :
    ∀ m ∈ later, ¬ m.action.Concerns id := by
  obtain ⟨-, hclaimed⟩ := claimed_of_moment hrun hhistory haction
  obtain ⟨-, hlater⟩ := hrun.everAfter (fun _ => starts_le) hhistory hclaimed
    fun _ _ _ hc hs => (hs.of_claimed hc).2
  intro m hm
  obtain ⟨hc, hs⟩ := hlater m hm
  exact (hs.of_claimed hc).1

theorem claimed_once
    (hrun : Reachable (Recorded.Starts Deployed) (Recorded.Acts Performs) w)
    (hhistory : w.history = past ++ moment :: later) {sender recipient : Address}
    (haction : moment.action = .claim sender recipient id) :
    ∀ m ∈ past ++ later, ∀ sender' recipient', m.action ≠ .claim sender' recipient' id := by
  intro m hm sender' recipient' hagain
  rcases List.mem_append.mp hm with hm | hm
  · -- this moment would be later than that claim
    obtain ⟨earlier, between, rfl⟩ := List.append_of_mem hm
    rw [List.append_assoc, List.cons_append] at hhistory
    have hconcerns := not_concerns_of_later hrun hhistory hagain moment (by simp)
    rw [haction] at hconcerns
    exact hconcerns rfl
  · have hconcerns := not_concerns_of_later hrun hhistory haction m hm
    rw [hagain] at hconcerns
    exact hconcerns rfl

end moments

/-- Who may transfer a request. -/
def Entitled (past : List (Moment WithdrawalQueue QueueAction)) (q : WithdrawalQueue) (id : Nat)
    (sender : Address) : Prop :=
  OwnerOrOperator past q id sender ∨ ApprovedSince past id sender

/--
**Only the entitled move or cash a request**, in any run of calls that are nested in any way. At every
moment of the history of a run, and for every request:

* its owner changes only in a transfer by the owner, by an operator whom the owner has approved for all
  and not dismissed since, or by the address that the owner or such an operator has approved for it
  since its owner last changed;
* it is paid for once only, after its finalization, in a claim by its owner, and ace leaves the
  queue in such claims only;
* once it is claimed, it is neither transferred nor approved: these calls revert.
-/
theorem only_entitled {m : Rollback.Machine QueueWorld QueueFrame} (h : QueueRun m) :
    (∀ past moment later, m.world.history = past ++ moment :: later →
      (∀ id ≤ moment.before.lastRequestId,
        (moment.after.queue id).owner ≠ (moment.before.queue id).owner →
        ∃ sender toAddr, moment.action = .transfer sender (moment.before.queue id).owner toAddr id ∧
          Entitled past moment.before id sender) ∧
      (∀ sender recipient id, moment.action = .claim sender recipient id →
        id ≤ moment.before.lastFinalizedRequestId ∧ sender = (moment.before.queue id).owner ∧
        (∃ hint amount, moment.before.calculateClaimableAce id hint = .ok amount ∧
          moment.after.balance + amount = moment.before.balance) ∧
        ∀ m' ∈ past ++ later, ∀ sender' recipient', m'.action ≠ .claim sender' recipient' id) ∧
      (moment.after.balance < moment.before.balance →
        ∃ sender recipient id, moment.action = .claim sender recipient id) ∧
      ∀ id ≤ moment.before.lastRequestId, (moment.before.queue id).claimed = true →
        ¬ moment.action.Concerns id) ∧
    ∀ id ≤ m.world.state.lastRequestId, (m.world.state.queue id).claimed = true →
      ∀ env q' toAddr, m.world.state.approve env toAddr id ≠ .ok q' ∧
        ∀ fromAddr, m.world.state.transfer env fromAddr toAddr id ≠ .ok q' := by
  have hrun := reachable_of_queueRun h
  refine ⟨fun past moment later hhistory => ?_, fun id hid hclaimed env q' toAddr => ⟨?_, ?_⟩⟩
  · obtain ⟨hbefore, hperforms, -⟩ := hrun.cut (fun _ => starts_le) hhistory
    refine ⟨fun id hid hchanged => ?_, fun sender recipient id haction => ?_, fun hless => ?_,
      fun id hid hclaimed => (hperforms.of_claimed ⟨hid, hclaimed⟩).1⟩
    · -- only a transfer changes the owner, and its sender is entitled to it
      rcases hperforms.cases hid with ⟨sender, toAddr, haction, ht⟩ | ⟨_, _, -, ha⟩ |
        ⟨_, _, -, hc⟩ | ⟨-, hsame⟩
      · refine ⟨sender, toAddr, haction, ?_⟩
        have happrovals := approvals_of_reachable hbefore
        rcases or_assoc.mpr ht.authorized with howner | hone
        · exact .inl (happrovals.ownerOrOperator howner)
        · have happroval := happrovals.requests id (hone ▸ ht.sender_ne)
          exact .inr (hone ▸ happroval.2)
      · exact absurd ha.owner hchanged
      · exact absurd hc.owner hchanged
      · exact absurd hsame.owner hchanged
    · obtain ⟨hc, -⟩ := claimed_of_moment hrun hhistory haction
      exact ⟨hc.finalized, hc.sender_eq.symm, hc.paid, claimed_once hrun hhistory haction⟩
    · -- every other step takes nothing out of the queue
      by_contra hnone
      have hkept := hperforms.balance_le fun sender recipient id haction =>
        hnone ⟨sender, recipient, id, haction⟩
      exact absurd hkept (Nat.not_le.mpr hless)
  · intro happrove
    obtain ⟨-, -, hunclaimed, -⟩ := approve_ok_cases happrove
    cases hunclaimed.symm.trans hclaimed
  · intro fromAddr htransfer
    obtain ⟨-, -, -, hunclaimed, -⟩ := transfer_ok_cases htransfer
    cases hunclaimed.symm.trans hclaimed

/-- `claimWithdrawals` begins with the claim of the first request. -/
theorem begins_claimWithdrawals {w : QueueWorld} (env : CallEnv) {hint : Nat}
    {requestIds hints : List Nat} (hlength : requestIds.length = hints.length)
    (h : w.state.claim env.toEnv id hint true = .ok q) :
    Begins w (w.record (.claim env.sender env.sender id) q)
      (some (.sendValue env env.sender (requestIds.zip hints))) := by
  have hlength' : (id :: requestIds).length = (hint :: hints).length := congrArg (· + 1) hlength
  have hcall : claimWithdrawals w env (id :: requestIds) (hint :: hints) =
      .ok (w.record (.claim env.sender env.sender id) q,
        some (.sendValue env env.sender (requestIds.zip hints))) := by
    simp only [claimWithdrawals, claimNext, List.zip_cons_cons, require_of hlength', ok_bind, h]
    rfl
  exact .claimWithdrawals env hcall

theorem exampleOwner_ne : (7 : Address) ≠ 0 := by decide

def exampleCallEnv (value : Nat) : CallEnv := ⟨exampleQueueEnv value, exampleOwner_ne⟩

/--
While the owner of two requests is paid for the first one, it transfers the second one away. Then the
first one is claimed for good.
-/
theorem only_entitled_nested : ∃ m, QueueRun m ∧ m.world.history.length = 5 ∧
    (m.world.state.queue 2).owner = 8 ∧
    ∀ env q' toAddr, m.world.state.approve env toAddr 1 ≠ .ok q' := by
  have hstart : QueueRun ⟨⟨exampleBlankQueue.initializeQueue (exampleQueueEnv 0), []⟩, []⟩ :=
    .init ⟨⟨⟨initial_exampleBlankQueue, fun _ => rfl, fun _ _ => rfl⟩, rfl⟩, rfl⟩
  have hfirst := hstart.step (.completes (.performs rfl
    (@Performs.request _ _ (exampleCallEnv 0) 100 100 _ 7 (eq_ok_result _ (by decide +kernel)))))
  have hsecond := hfirst.step (.completes (.performs rfl
    (@Performs.request _ _ (exampleCallEnv 0) 100 100 _ 7 (eq_ok_result _ (by decide +kernel)))))
  have hfinalized := hsecond.step (.completes (.performs rfl
    (@Performs.finalize _ _ (exampleCallEnv 100) 1 (10 ^ 27)
      (eq_ok_result _ (by decide +kernel)))))
  have hpaid := hfinalized.step (.waits (@begins_claimWithdrawals _ 1 _ (exampleCallEnv 0) 1 [] [] rfl
    (eq_ok_result _ (by decide +kernel))))
  have hgiven := hpaid.step (.completes (.performs rfl
    (@Performs.transfer _ _ (exampleCallEnv 0) 7 8 2 (eq_ok_result _ (by decide +kernel)))))
  have hreturned := hgiven.step (.returns (.sendValue rfl))
  obtain ⟨-, hgone⟩ := only_entitled hreturned
  refine ⟨_, hreturned, rfl, by decide +kernel, fun env q' toAddr => ?_⟩
  exact (hgone 1 (by decide +kernel) (by decide +kernel) env q' toAddr).1

end WithdrawalQueue

end Catalist
