import Catalist.Lib.History
import Catalist.Lib.Rollback
import Catalist.WithdrawalQueue.Invariant

/-!
# Calls of the queue that call back

`claimWithdrawalsTo`, `claimWithdrawals`, `claimWithdrawal` and `safeTransferFrom` call the recipient
of the ace or the new owner of the request, which may call the queue again before it answers. The
code is given as the parts between these calls (`queueCode`): a payment is the last thing a claim
does, so the frame that waits for the recipient holds the claims that are left in the loop.

A call of several requests of `requestWithdrawals` is a sequence of requests here, within a call of
the outside if they are to be reverted together. The history of a run is kept beside the storage,
and a revert takes it back with the storage.
-/

namespace Catalist

open Solidity Transition

/-- A call comes from an account, and the zero address is none. -/
structure CallEnv extends Env where
  sender_ne : sender ≠ 0

/-- What the calls do to requests, with the sender where it matters. -/
inductive QueueAction where
  | request (requestId : Nat) (owner : Address)
  | finalize (lastRequestId : Nat)
  | approve (sender toAddr : Address) (requestId : Nat)
  | setApprovalForAll (sender operator : Address) (approved : Bool)
  | transfer (sender fromAddr toAddr : Address) (requestId : Nat)
  | claim (sender recipient : Address) (requestId : Nat)
  | other
deriving DecidableEq

/-- The action is a claim, which calls the recipient. -/
def QueueAction.pays : QueueAction → Bool
  | .claim _ _ _ => true
  | _ => false

/-- Where the code waits for an answer. -/
inductive QueueFrame where
  /-- `_sendValue` pays the recipient; the requests and hints behind it are to be claimed next. -/
  | sendValue (env : CallEnv) (recipient : Address) (rest : List (Nat × Nat))
  /-- `_checkOnERC721Received` asks the new owner. -/
  | onERC721Received
  /-- Another contract, within a call of its own. -/
  | outside

abbrev QueueWorld := Recorded WithdrawalQueue QueueAction

namespace WithdrawalQueue

/-- The actions, as the functions of the contract perform them. -/
inductive Performs : WithdrawalQueue → QueueAction → WithdrawalQueue → Prop where
  | request {q q' : WithdrawalQueue} (env : CallEnv) {bACE shares requestId : Nat}
      {owner : Address} :
      q.enqueue env.toEnv bACE shares owner = .ok (q', requestId) →
      Performs q (.request requestId owner) q'
  | finalize {q q' : WithdrawalQueue} (env : CallEnv) {last m : Nat} :
      q.finalize env.toEnv last m = .ok q' → Performs q (.finalize last) q'
  | approve {q q' : WithdrawalQueue} (env : CallEnv) {toAddr : Address} {id : Nat} :
      q.approve env.toEnv toAddr id = .ok q' → Performs q (.approve env.sender toAddr id) q'
  | setApprovalForAll {q q' : WithdrawalQueue} (env : CallEnv) {operator : Address}
      {approved : Bool} :
      q.setApprovalForAll env.toEnv operator approved = .ok q' →
      Performs q (.setApprovalForAll env.sender operator approved) q'
  | transfer {q q' : WithdrawalQueue} (env : CallEnv) {fromAddr toAddr : Address} {id : Nat} :
      q.transfer env.toEnv fromAddr toAddr id = .ok q' →
      Performs q (.transfer env.sender fromAddr toAddr id) q'
  | claim {q q' : WithdrawalQueue} (env : CallEnv) {recipient : Address} {id hint : Nat} :
      q.claim env.toEnv id hint true = .ok q' → Performs q (.claim env.sender recipient id) q'
  /-- Pausing, roles and report times change freely, and ace may be received. -/
  | other {q : WithdrawalQueue} {resumeSinceTimestamp lastReportTimestamp : Nat}
      {hasRole : QueueRole → Address → Bool} (received : Nat) :
      Performs q .other { q with
        resumeSinceTimestamp := resumeSinceTimestamp, lastReportTimestamp := lastReportTimestamp,
        hasRole := hasRole, balance := q.balance + received }

/-! ## The parts of the code -/

variable (w : QueueWorld) (env : CallEnv)

/-- The loop of the claims, up to the next payment. -/
def claimNext (recipient : Address) :
    List (Nat × Nat) → Call QueueError (QueueWorld × Option QueueFrame)
  | [] => return (w, none)
  | (requestId, hint) :: rest => do
    -- the payment is the last effect of `_claim`: a refusal reverts the frame
    let q ← w.state.claim env.toEnv requestId hint true
    return (w.record (.claim env.sender recipient requestId) q, some (.sendValue env recipient rest))

/-- `claimWithdrawalsTo` -/
def claimWithdrawalsTo (requestIds hints : List Nat) (recipient : Address) :
    Call QueueError (QueueWorld × Option QueueFrame) := do
  require (recipient ≠ 0) .zeroRecipient
  require (requestIds.length = hints.length) (.arraysLengthMismatch requestIds.length hints.length)
  claimNext w env recipient (requestIds.zip hints)

/-- `claimWithdrawals` -/
def claimWithdrawals (requestIds hints : List Nat) :
    Call QueueError (QueueWorld × Option QueueFrame) := do
  require (requestIds.length = hints.length) (.arraysLengthMismatch requestIds.length hints.length)
  claimNext w env env.sender (requestIds.zip hints)

/-- `claimWithdrawal` -/
def claimWithdrawal (requestId : Nat) : Call QueueError (QueueWorld × Option QueueFrame) := do
  let hint ← w.state.findCheckpointHint requestId 1 w.state.lastCheckpointIndex
  claimNext w env env.sender [(requestId, hint)]

/-- `safeTransferFrom`; `isContract` is what `_to.isContract()` says. -/
def safeTransferFrom (fromAddr toAddr : Address) (requestId : Nat) (isContract : Bool) :
    Call QueueError (QueueWorld × Option QueueFrame) := do
  let q ← w.state.transfer env.toEnv fromAddr toAddr requestId
  return (w.record (.transfer env.sender fromAddr toAddr requestId) q,
    if isContract then some .onERC721Received else none)

/-- How a call begins. -/
inductive Begins : QueueWorld → QueueWorld → Option QueueFrame → Prop where
  /-- Requests, finalizations, approvals, `transferFrom` and all that does not touch requests -/
  | performs {w : QueueWorld} {action : QueueAction} {q : WithdrawalQueue} :
      action.pays = false → Performs w.state action q → Begins w (w.record action q) none
  | claimWithdrawalsTo {w w' : QueueWorld} {frame : Option QueueFrame} (env : CallEnv)
      {requestIds hints : List Nat} {recipient : Address} :
      claimWithdrawalsTo w env requestIds hints recipient = .ok (w', frame) → Begins w w' frame
  | claimWithdrawals {w w' : QueueWorld} {frame : Option QueueFrame} (env : CallEnv)
      {requestIds hints : List Nat} :
      claimWithdrawals w env requestIds hints = .ok (w', frame) → Begins w w' frame
  | claimWithdrawal {w w' : QueueWorld} {frame : Option QueueFrame} (env : CallEnv)
      {requestId : Nat} :
      claimWithdrawal w env requestId = .ok (w', frame) → Begins w w' frame
  | safeTransferFrom {w w' : QueueWorld} {frame : Option QueueFrame} (env : CallEnv)
      {fromAddr toAddr : Address} {requestId : Nat} {isContract : Bool} :
      safeTransferFrom w env fromAddr toAddr requestId isContract = .ok (w', frame) →
      Begins w w' frame
  | outside {w : QueueWorld} : Begins w w (some .outside)

/-- How a call goes on when the answer has come. -/
inductive Resumes : QueueFrame → QueueWorld → QueueWorld → Option QueueFrame → Prop where
  | sendValue {w w' : QueueWorld} {frame : Option QueueFrame} {env : CallEnv}
      {recipient : Address} {rest : List (Nat × Nat)} :
      claimNext w env recipient rest = .ok (w', frame) →
      Resumes (.sendValue env recipient rest) w w' frame
  | onERC721Received {w : QueueWorld} : Resumes .onERC721Received w w none
  | outside {w : QueueWorld} : Resumes .outside w w none

/-- The code of the queue. -/
def queueCode : Rollback.Code QueueWorld QueueFrame where
  begins := Begins
  resumes := Resumes

/-- A queue right after its deployment: nobody is approved for any request. -/
structure Deployed (q : WithdrawalQueue) : Prop where
  initial : Initial q
  tokenApprovals : ∀ id, q.tokenApprovals id = 0
  operatorApprovals : ∀ owner operator, q.operatorApprovals owner operator = false

/-! ## Parts are actions -/

variable {w w' : QueueWorld} {frame : Option QueueFrame} {env : CallEnv}

theorem reachable_of_performs {action : QueueAction} {q : WithdrawalQueue}
    (h : Performs w.state action q) :
    Reachable (· = w) (Recorded.Acts Performs) (w.record action q) := by
  have hstart : Reachable (· = w) (Recorded.Acts Performs) w := .init rfl
  exact hstart.step ⟨h⟩

theorem reachable_of_claimNext {recipient : Address} {rest : List (Nat × Nat)}
    (h : claimNext w env recipient rest = .ok (w', frame)) :
    Reachable (· = w) (Recorded.Acts Performs) w' := by
  cases rest with
  | nil =>
    simp only [claimNext, pure_eq_ok, Prod.mk.injEq] at h
    obtain ⟨rfl, -⟩ := h
    exact .init rfl
  | cons request rest =>
    simp only [claimNext, bind_eq_ok, pure_eq_ok, Prod.mk.injEq] at h
    obtain ⟨q, hclaim, rfl, -⟩ := h
    exact reachable_of_performs (.claim env hclaim)

theorem reachable_of_begins (h : Begins w w' frame) :
    Reachable (· = w) (Recorded.Acts Performs) w' := by
  cases h with
  | performs _ h => exact reachable_of_performs h
  | claimWithdrawalsTo env h =>
    simp only [claimWithdrawalsTo, bind_eq_ok] at h
    obtain ⟨_, -, _, -, h⟩ := h
    exact reachable_of_claimNext h
  | claimWithdrawals env h =>
    simp only [claimWithdrawals, bind_eq_ok] at h
    obtain ⟨_, -, h⟩ := h
    exact reachable_of_claimNext h
  | claimWithdrawal env h =>
    simp only [claimWithdrawal, bind_eq_ok] at h
    obtain ⟨_, -, h⟩ := h
    exact reachable_of_claimNext h
  | safeTransferFrom env h =>
    simp only [safeTransferFrom, bind_eq_ok, pure_eq_ok, Prod.mk.injEq] at h
    obtain ⟨q, htransfer, rfl, -⟩ := h
    exact reachable_of_performs (.transfer env htransfer)
  | outside => exact .init rfl

theorem reachable_of_resumes {waiting : QueueFrame} (h : Resumes waiting w w' frame) :
    Reachable (· = w) (Recorded.Acts Performs) w' := by
  cases h with
  | sendValue h => exact reachable_of_claimNext h
  | onERC721Received => exact .init rfl
  | outside => exact .init rfl

/-- The runs of the contract, with all that its callees do before they answer. -/
abbrev QueueRun (m : Rollback.Machine QueueWorld QueueFrame) : Prop :=
  Reachable (Rollback.Starts (Recorded.Starts Deployed)) (Rollback.Step queueCode) m

/-- Every run leads where the actions of its history lead. -/
theorem reachable_of_queueRun {m : Rollback.Machine QueueWorld QueueFrame} (h : QueueRun m) :
    Reachable (Recorded.Starts Deployed) (Recorded.Acts Performs) m.world :=
  Rollback.reachable_world (fun _ _ _ => reachable_of_begins) (fun _ _ _ _ => reachable_of_resumes) h

end WithdrawalQueue

end Catalist
