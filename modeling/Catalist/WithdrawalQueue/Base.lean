import Catalist.Evm
import Catalist.Lib.Checked
import Mathlib.Data.Finset.Insert
import Mathlib.Data.Finset.Basic

/-!
# The withdrawal queue contract

`WithdrawalQueueBase.sol`, with the parts of `WithdrawalQueue.sol` and
`WithdrawalQueueERC721.sol` that move requests (`finalize`, `approve`, `setApprovalForAll` and
`transferFrom`) or find their hints (`findCheckpointHints`).

Requests and checkpoints are numbered from 1; index 0 holds the dummies that `_initializeQueue`
writes. Every function takes the contract's storage and returns it changed, or reverts.
Functions that the source prefixes with an underscore drop it; where the external function has
the same name (`finalize`), the internal one is called `finalizeInternal`.

Events are not modelled. `requestsByOwner` is the `EnumerableSet.UintSet` of each owner, kept as
a finite set: `add` succeeds when the element is new, `remove` when it is present.
-/

namespace Catalist

open Solidity

/-- A request for withdrawal, with the running sums up to and including it. -/
structure WithdrawalRequest where
  cumulativeBACE : Nat
  cumulativeShares : Nat
  owner : Address
  timestamp : Nat
  claimed : Bool
  reportTimestamp : Nat
deriving DecidableEq, Repr

/-- The discount that applies from a request on. -/
structure Checkpoint where
  fromRequestId : Nat
  maxShareRate : Nat
deriving DecidableEq, Repr

/-- The roles that `WithdrawalQueue.sol` checks. -/
inductive QueueRole where
  | pause
  | resume
  | finalize
  | oracle
deriving DecidableEq, Repr

/-- The storage of the contract and its balance. -/
structure WithdrawalQueue where
  queue : Nat → WithdrawalRequest
  lastRequestId : Nat
  lastFinalizedRequestId : Nat
  checkpoints : Nat → Checkpoint
  lastCheckpointIndex : Nat
  lockedAceAmount : Nat
  requestsByOwner : Address → Finset Nat
  lastReportTimestamp : Nat
  tokenApprovals : Nat → Address
  operatorApprovals : Address → Address → Bool
  resumeSinceTimestamp : Nat
  hasRole : QueueRole → Address → Bool
  /-- `address(this).balance` -/
  balance : Nat

inductive QueueError where
  | zeroShareRate
  | emptyBatches
  | batchesAreNotSorted
  | invalidState
  | invalidRequestId (requestId : Nat)
  | invalidRequestIdRange (startId endId : Nat)
  | requestIdsNotSorted
  | tooMuchAceToFinalize (sent maxExpected : Nat)
  | requestNotFoundOrNotFinalized (requestId : Nat)
  | requestAlreadyClaimed (requestId : Nat)
  | notOwner (sender owner : Address)
  | invalidHint (hint : Nat)
  | notEnoughAce
  | cantSendValueRecipientMayHaveReverted
  | approvalToOwner
  | approveToCaller
  | notOwnerOrApprovedForAll (sender : Address)
  | notOwnerOrApproved (sender : Address)
  | transferFromIncorrectOwner (sender realOwner : Address)
  | transferToZeroAddress
  | transferToThemselves
  | resumedExpected
  | zeroRecipient
  | arraysLengthMismatch (firstArrayLength secondArrayLength : Nat)
  | missingRole (role : QueueRole) (account : Address)
deriving DecidableEq, Repr

/-- Precision base for share rates. -/
def E27_PRECISION_BASE : Nat := 10 ^ 27

/-- The return value of `findCheckpointHint` when there is no hint in the range. -/
def NOT_FOUND : Nat := 0

/-- What `calcBatch` returns. -/
structure BatchStats where
  shareRate : Nat
  bACE : Nat
  shares : Nat
deriving DecidableEq, Repr

/-- Stats of the requests after `preStartRequest` up to `endRequest`. -/
def calcBatch (preStartRequest endRequest : WithdrawalRequest) : Call QueueError BatchStats := do
  let bACE ← checkedSub endRequest.cumulativeBACE preStartRequest.cumulativeBACE
  let shares ← checkedSub endRequest.cumulativeShares preStartRequest.cumulativeShares
  let scaled ← checkedMul 256 bACE E27_PRECISION_BASE
  let shareRate ← checkedDiv scaled shares
  return { shareRate := shareRate, bACE := bACE, shares := shares }

/-- The ace due for a batch at `maxShareRate`: discounted above it, nominal otherwise. -/
def batchAce (batch : BatchStats) (maxShareRate : Nat) : Call QueueError Nat :=
  if batch.shareRate > maxShareRate then do
    let scaled ← checkedMul 256 batch.shares maxShareRate
    checkedDiv scaled E27_PRECISION_BASE
  else
    return batch.bACE

namespace WithdrawalQueue

variable (q : WithdrawalQueue)

/-! ## Initialization -/

/-- `_initializeQueue`: the dummy request and the dummy checkpoint. -/
def initializeQueue (env : Env) : WithdrawalQueue :=
  { q with
    queue := Function.update q.queue 0
      { cumulativeBACE := 0, cumulativeShares := 0, owner := 0,
        timestamp := env.timestamp % 2 ^ 40, claimed := true, reportTimestamp := 0 }
    checkpoints := Function.update q.checkpoints q.lastCheckpointIndex
      { fromRequestId := 0, maxShareRate := 0 } }

/-! ## Requests -/

/-- `_enqueue`: a new request at the end of the queue. The amounts are `uint128`. -/
def enqueue (env : Env) (amountOfBACE amountOfShares : Nat) (owner : Address) :
    Call QueueError (WithdrawalQueue × Nat) := do
  let lastRequest := q.queue q.lastRequestId
  let cumulativeShares ← checkedAdd 128 lastRequest.cumulativeShares amountOfShares
  let cumulativeBACE ← checkedAdd 128 lastRequest.cumulativeBACE amountOfBACE
  let requestId ← checkedAdd 256 q.lastRequestId 1
  let newRequest : WithdrawalRequest :=
    { cumulativeBACE := cumulativeBACE, cumulativeShares := cumulativeShares, owner := owner,
      timestamp := env.timestamp % 2 ^ 40, claimed := false,
      reportTimestamp := q.lastReportTimestamp % 2 ^ 40 }
  ensure (requestId ∉ q.requestsByOwner owner)
  return ({ q with
    lastRequestId := requestId
    queue := Function.update q.queue requestId newRequest
    requestsByOwner := Function.update q.requestsByOwner owner
      (insert requestId (q.requestsByOwner owner)) }, requestId)

/-- `unfinalizedBACE` -/
def unfinalizedBACE : Call QueueError Nat :=
  checkedSub (q.queue q.lastRequestId).cumulativeBACE
    (q.queue q.lastFinalizedRequestId).cumulativeBACE

/-! ## Finalization -/

/-- The loop of `prefinalize`, from the batch after `prevBatchEndRequestId` on. -/
def prefinalizeLoop (maxShareRate : Nat) :
    List Nat → Nat → Nat → Nat → Call QueueError (Nat × Nat)
  | [], _, ethToLock, sharesToBurn => return (ethToLock, sharesToBurn)
  | batchEndRequestId :: rest, prevBatchEndRequestId, ethToLock, sharesToBurn => do
    require (prevBatchEndRequestId < batchEndRequestId) .batchesAreNotSorted
    let batch ← calcBatch (q.queue prevBatchEndRequestId) (q.queue batchEndRequestId)
    let batchEth ← batchAce batch maxShareRate
    let ethToLock ← checkedAdd 256 ethToLock batchEth
    let sharesToBurn ← checkedAdd 256 sharesToBurn batch.shares
    prefinalizeLoop maxShareRate rest batchEndRequestId ethToLock sharesToBurn

/-- `prefinalize`: the ace to lock and the shares to burn for the batches that end at `batches`. -/
def prefinalize (batches : List Nat) (maxShareRate : Nat) : Call QueueError (Nat × Nat) := do
  require (maxShareRate ≠ 0) .zeroShareRate
  require (batches ≠ []) .emptyBatches
  let first := batches.headD 0
  let last := batches.getLastD 0
  require (q.lastFinalizedRequestId < first) (.invalidRequestId first)
  require (last ≤ q.lastRequestId) (.invalidRequestId last)
  q.prefinalizeLoop maxShareRate batches q.lastFinalizedRequestId 0 0

/-- `_finalize` -/
def finalizeInternal (lastRequestIdToBeFinalized amountOfACE maxShareRate : Nat) :
    Call QueueError WithdrawalQueue := do
  require (lastRequestIdToBeFinalized ≤ q.lastRequestId)
    (.invalidRequestId lastRequestIdToBeFinalized)
  require (q.lastFinalizedRequestId < lastRequestIdToBeFinalized)
    (.invalidRequestId lastRequestIdToBeFinalized)
  let lastFinalizedRequest := q.queue q.lastFinalizedRequestId
  let requestToFinalize := q.queue lastRequestIdToBeFinalized
  let bACEToFinalize ←
    checkedSub requestToFinalize.cumulativeBACE lastFinalizedRequest.cumulativeBACE
  require (amountOfACE ≤ bACEToFinalize) (.tooMuchAceToFinalize amountOfACE bACEToFinalize)
  let firstRequestIdToFinalize ← checkedAdd 256 q.lastFinalizedRequestId 1
  let newCheckpointIndex ← checkedAdd 256 q.lastCheckpointIndex 1
  let lockedAceAmount ← checkedAdd 256 q.lockedAceAmount amountOfACE
  -- the event at the end computes the shares that leave the queue
  let _ ← checkedSub requestToFinalize.cumulativeShares lastFinalizedRequest.cumulativeShares
  return { q with
    checkpoints := Function.update q.checkpoints newCheckpointIndex
      { fromRequestId := firstRequestIdToFinalize, maxShareRate := maxShareRate }
    lastCheckpointIndex := newCheckpointIndex
    lockedAceAmount := lockedAceAmount
    lastFinalizedRequestId := lastRequestIdToBeFinalized }

def isPaused (env : Env) : Bool := env.timestamp < q.resumeSinceTimestamp

/-- `finalize`, a payable call: its value joins the balance. -/
def finalize (env : Env) (lastRequestIdToBeFinalized maxShareRate : Nat) :
    Call QueueError WithdrawalQueue := do
  require (q.isPaused env = false) .resumedExpected
  require (q.hasRole .finalize env.sender = true) (.missingRole .finalize env.sender)
  { q with balance := q.balance + env.value }.finalizeInternal lastRequestIdToBeFinalized env.value
    maxShareRate

/-! ## Hints and claims -/

/-- The binary search of `findCheckpointHint`. -/
def searchCheckpoint (requestId : Nat) (min max : Nat) : Call QueueError Nat :=
  if min < max then do
    let sum ← checkedAdd 256 max min
    let _ ← checkedAdd 256 sum 1
    let mid := (max + min + 1) / 2
    if (q.checkpoints mid).fromRequestId ≤ requestId then searchCheckpoint requestId mid max
    else do
      let _ ← checkedSub mid 1
      searchCheckpoint requestId min (mid - 1)
  else return min
termination_by max - min
decreasing_by all_goals omega

/-- `_findCheckpointHint` -/
def findCheckpointHint (requestId start last : Nat) : Call QueueError Nat := do
  require (requestId ≠ 0 ∧ requestId ≤ q.lastRequestId) (.invalidRequestId requestId)
  require (start ≠ 0 ∧ last ≤ q.lastCheckpointIndex) (.invalidRequestIdRange start last)
  if q.lastCheckpointIndex = 0 ∨ q.lastFinalizedRequestId < requestId ∨ last < start then
    return NOT_FOUND
  else if (q.checkpoints last).fromRequestId ≤ requestId then
    -- right boundary: the last checkpoint, or the one just before the next
    if last = q.lastCheckpointIndex then return last
    else if requestId < (q.checkpoints (last + 1)).fromRequestId then return last
    else return NOT_FOUND
  else if requestId < (q.checkpoints start).fromRequestId then return NOT_FOUND
  else do
    let max ← checkedSub last 1
    q.searchCheckpoint requestId start max

/--
The loop of `findCheckpointHints`. The left edge of the range moves to each hint that was returned.
-/
def findCheckpointHintsLoop (lastIndex : Nat) : List Nat → Nat → Nat → Call QueueError (List Nat)
  | [], _, _ => return []
  | requestId :: requestIds, prevRequestId, firstIndex => do
    require (prevRequestId ≤ requestId) .requestIdsNotSorted
    let hint ← q.findCheckpointHint requestId firstIndex lastIndex
    let hintIds ← findCheckpointHintsLoop lastIndex requestIds requestId hint
    return hint :: hintIds

/-- `findCheckpointHints` -/
def findCheckpointHints (requestIds : List Nat) (firstIndex lastIndex : Nat) :
    Call QueueError (List Nat) :=
  q.findCheckpointHintsLoop lastIndex requestIds 0 firstIndex

/-- `_calculateClaimableAce`; `request` is read from the queue at `requestId`. -/
def calculateClaimableAce (requestId hint : Nat) : Call QueueError Nat := do
  require (hint ≠ 0) (.invalidHint hint)
  require (hint ≤ q.lastCheckpointIndex) (.invalidHint hint)
  let checkpoint := q.checkpoints hint
  require (checkpoint.fromRequestId ≤ requestId) (.invalidHint hint)
  require (hint < q.lastCheckpointIndex → requestId < (q.checkpoints (hint + 1)).fromRequestId)
    (.invalidHint hint)
  let prevRequestId ← checkedSub requestId 1
  let batch ← calcBatch (q.queue prevRequestId) (q.queue requestId)
  batchAce batch checkpoint.maxShareRate

/--
`_sendValue`. `recipientAccepts` is whether the recipient's code takes the transfer; whatever the
recipient does when called happens after all the effects of the caller.
-/
def sendValue (amount : Nat) (recipientAccepts : Bool) : Call QueueError WithdrawalQueue := do
  require (amount ≤ q.balance) .notEnoughAce
  require (recipientAccepts = true) .cantSendValueRecipientMayHaveReverted
  return { q with balance := q.balance - amount }

/-- `_claim`: pay the request out to a recipient. -/
def claim (env : Env) (requestId hint : Nat) (recipientAccepts : Bool) :
    Call QueueError WithdrawalQueue := do
  require (requestId ≠ 0) (.invalidRequestId requestId)
  require (requestId ≤ q.lastFinalizedRequestId) (.requestNotFoundOrNotFinalized requestId)
  let request := q.queue requestId
  require (request.claimed = false) (.requestAlreadyClaimed requestId)
  require (request.owner = env.sender) (.notOwner env.sender request.owner)
  ensure (requestId ∈ q.requestsByOwner request.owner)
  let q := { q with
    queue := Function.update q.queue requestId { request with claimed := true }
    requestsByOwner := Function.update q.requestsByOwner request.owner
      ((q.requestsByOwner request.owner).erase requestId) }
  let ethWithDiscount ← q.calculateClaimableAce requestId hint
  let lockedAceAmount ← checkedSub q.lockedAceAmount ethWithDiscount
  let q := { q with lockedAceAmount := lockedAceAmount }
  q.sendValue ethWithDiscount recipientAccepts

/-! ## Ownership -/

/-- `ownerOf` -/
def ownerOf (requestId : Nat) : Call QueueError Address := do
  require (requestId ≠ 0 ∧ requestId ≤ q.lastRequestId) (.invalidRequestId requestId)
  let request := q.queue requestId
  require (request.claimed = false) (.requestAlreadyClaimed requestId)
  return request.owner

/-- `approve` -/
def approve (env : Env) (toAddr : Address) (requestId : Nat) : Call QueueError WithdrawalQueue := do
  let owner ← q.ownerOf requestId
  require (toAddr ≠ owner) .approvalToOwner
  require (env.sender = owner ∨ q.operatorApprovals owner env.sender = true)
    (.notOwnerOrApprovedForAll env.sender)
  return { q with tokenApprovals := Function.update q.tokenApprovals requestId toAddr }

/-- `setApprovalForAll` -/
def setApprovalForAll (env : Env) (operator : Address) (approved : Bool) :
    Call QueueError WithdrawalQueue := do
  require (env.sender ≠ operator) .approveToCaller
  return { q with
    operatorApprovals := Function.update q.operatorApprovals env.sender
      (Function.update (q.operatorApprovals env.sender) operator approved) }

/-- `_transfer` -/
def transfer (env : Env) (fromAddr toAddr : Address) (requestId : Nat) :
    Call QueueError WithdrawalQueue := do
  require (toAddr ≠ 0) .transferToZeroAddress
  require (toAddr ≠ fromAddr) .transferToThemselves
  require (requestId ≠ 0 ∧ requestId ≤ q.lastRequestId) (.invalidRequestId requestId)
  let request := q.queue requestId
  require (request.claimed = false) (.requestAlreadyClaimed requestId)
  require (fromAddr = request.owner) (.transferFromIncorrectOwner fromAddr request.owner)
  require (fromAddr = env.sender ∨ q.operatorApprovals fromAddr env.sender = true ∨
    q.tokenApprovals requestId = env.sender) (.notOwnerOrApproved env.sender)
  let withoutIt := Function.update q.requestsByOwner fromAddr
    ((q.requestsByOwner fromAddr).erase requestId)
  ensure (requestId ∈ q.requestsByOwner fromAddr)
  ensure (requestId ∉ withoutIt toAddr)
  return { q with
    tokenApprovals := Function.update q.tokenApprovals requestId 0
    queue := Function.update q.queue requestId { request with owner := toAddr }
    requestsByOwner := Function.update withoutIt toAddr (insert requestId (withoutIt toAddr)) }

end WithdrawalQueue

end Catalist
