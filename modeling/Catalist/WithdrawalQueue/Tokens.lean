import Catalist.EnumerableSet
import Catalist.WithdrawalQueue.Representation

/-!
# Requests as tokens

The requests of each owner are kept in an `EnumerableSet`, which the rest of the development treats
as a finite set. Here are the functions that write to it, with the array and its positions in place
of the finite set. They do what they do with finite sets, reverts included (`enqueue_refines`,
`claim_refines`, `transfer_refines`).

So the views of `WithdrawalQueueERC721.sol` and `getWithdrawalRequests` are exact in every run
(`tokens_enumerated`).
-/

namespace Catalist

open Solidity Transition IndexTable

/-- The storage of the queue. The sets of `base` are not read. -/
structure TokenQueue where
  base : WithdrawalQueue
  requestsByOwner : Address → EnumerableSet Nat

inductive TokenError where
  | queue (e : QueueError)
  | invalidOwnerAddress (owner : Address)
deriving DecidableEq, Repr

namespace TokenQueue

variable (t : TokenQueue)

/-! ## The functions that write to the sets -/

/-- `_enqueue` -/
def enqueue (env : Env) (amountOfBACE amountOfShares : Nat) (owner : Address) :
    Call QueueError (TokenQueue × Nat) := do
  let q := t.base
  let lastRequest := q.queue q.lastRequestId
  let cumulativeShares ← checkedAdd 128 lastRequest.cumulativeShares amountOfShares
  let cumulativeBACE ← checkedAdd 128 lastRequest.cumulativeBACE amountOfBACE
  let requestId ← checkedAdd 256 q.lastRequestId 1
  let newRequest : WithdrawalRequest :=
    { cumulativeBACE := cumulativeBACE, cumulativeShares := cumulativeShares, owner := owner,
      timestamp := env.timestamp % 2 ^ 40, claimed := false,
      reportTimestamp := q.lastReportTimestamp % 2 ^ 40 }
  let (requests, added) := (t.requestsByOwner owner).add requestId
  ensure (added = true)
  return ({
    base := { q with
      lastRequestId := requestId
      queue := Function.update q.queue requestId newRequest }
    requestsByOwner := Function.update t.requestsByOwner owner requests }, requestId)

/-- `_claim` -/
def claim (env : Env) (requestId hint : Nat) (recipientAccepts : Bool) :
    Call QueueError TokenQueue := do
  let q := t.base
  require (requestId ≠ 0) (.invalidRequestId requestId)
  require (requestId ≤ q.lastFinalizedRequestId) (.requestNotFoundOrNotFinalized requestId)
  let request := q.queue requestId
  require (request.claimed = false) (.requestAlreadyClaimed requestId)
  require (request.owner = env.sender) (.notOwner env.sender request.owner)
  let q := { q with queue := Function.update q.queue requestId { request with claimed := true } }
  let (requests, removed) ← (t.requestsByOwner request.owner).remove requestId
  ensure (removed = true)
  let ethWithDiscount ← q.calculateClaimableAce requestId hint
  let lockedAceAmount ← checkedSub q.lockedAceAmount ethWithDiscount
  let q := { q with lockedAceAmount := lockedAceAmount }
  let q ← q.sendValue ethWithDiscount recipientAccepts
  return {
    base := q
    requestsByOwner := Function.update t.requestsByOwner request.owner requests }

/-- `_transfer` -/
def transfer (env : Env) (fromAddr toAddr : Address) (requestId : Nat) :
    Call QueueError TokenQueue := do
  let q := t.base
  require (toAddr ≠ 0) .transferToZeroAddress
  require (toAddr ≠ fromAddr) .transferToThemselves
  require (requestId ≠ 0 ∧ requestId ≤ q.lastRequestId) (.invalidRequestId requestId)
  let request := q.queue requestId
  require (request.claimed = false) (.requestAlreadyClaimed requestId)
  require (fromAddr = request.owner) (.transferFromIncorrectOwner fromAddr request.owner)
  require (fromAddr = env.sender ∨ q.operatorApprovals fromAddr env.sender = true ∨
    q.tokenApprovals requestId = env.sender) (.notOwnerOrApproved env.sender)
  let q := { q with
    tokenApprovals := Function.update q.tokenApprovals requestId 0
    queue := Function.update q.queue requestId { request with owner := toAddr } }
  let (fromRequests, removed) ← (t.requestsByOwner fromAddr).remove requestId
  ensure (removed = true)
  let requestsByOwner := Function.update t.requestsByOwner fromAddr fromRequests
  let (toRequests, added) := (requestsByOwner toAddr).add requestId
  ensure (added = true)
  return { base := q, requestsByOwner := Function.update requestsByOwner toAddr toRequests }

/-! ## The views -/

/-- `balanceOf` -/
def balanceOf (owner : Address) : Call TokenError Nat := do
  require (owner ≠ 0) (.invalidOwnerAddress owner)
  return (t.requestsByOwner owner).length

/-- `getWithdrawalRequests` -/
def getWithdrawalRequests (owner : Address) : List Nat :=
  (t.requestsByOwner owner).values

/-! ## Refinement -/

/-- The queue with finite sets. -/
def abstract : WithdrawalQueue :=
  { t.base with requestsByOwner := fun owner => (t.requestsByOwner owner).toFinset }

/-- The sets are in order. -/
def Sound : Prop :=
  ∀ owner, Indexed (t.requestsByOwner owner).values (t.requestsByOwner owner).indexes

variable {t} {t' : TokenQueue} {env : Env} {id hint : Nat} {owner fromAddr toAddr : Address}

theorem Sound.represents (h : t.Sound) (owner : Address) :
    (t.requestsByOwner owner).Represents (t.abstract.requestsByOwner owner) :=
  EnumerableSet.represents_toFinset (h owner)

/-- One set is replaced by another one that is in order. -/
theorem Sound.update (h : t.Sound) {requests : EnumerableSet Nat} {s : Finset Nat}
    (hrequests : requests.Represents s) (q : WithdrawalQueue) (owner : Address) :
    Sound ⟨q, Function.update t.requestsByOwner owner requests⟩ ∧
      abstract ⟨q, Function.update t.requestsByOwner owner requests⟩
        = { q with requestsByOwner := Function.update t.abstract.requestsByOwner owner s } := by
  constructor
  · intro a
    by_cases ha : a = owner
    · subst ha
      simp only [Function.update_self]
      exact hrequests.indexed
    · simp only [Function.update_of_ne ha]
      exact h a
  · have hsets : (fun a => (Function.update t.requestsByOwner owner requests a).toFinset)
        = Function.update (fun a => (t.requestsByOwner a).toFinset) owner s := by
      funext a
      by_cases ha : a = owner
      · subst ha
        rw [Function.update_self, Function.update_self, hrequests.toFinset_eq]
      · rw [Function.update_of_ne ha, Function.update_of_ne ha]
    unfold abstract
    rw [hsets]

theorem ensure_congr {P Q : Prop} [Decidable P] [Decidable Q] (h : P ↔ Q) :
    (ensure P : Call QueueError Unit) = ensure Q := by
  unfold ensure
  by_cases hP : P
  · rw [if_pos hP, if_pos (h.mp hP)]
  · rw [if_neg hP, if_neg (mt h.mpr hP)]

theorem enqueue_refines (h : t.Sound) (bACE shares : Nat) :
    (fun r => (r.1.abstract, r.2)) <$> t.enqueue env bACE shares owner
      = t.abstract.enqueue env bACE shares owner := by
  unfold enqueue WithdrawalQueue.enqueue
  simp only [map_bind]
  refine bind_congr fun cumulativeShares => bind_congr fun cumulativeBACE =>
    bind_congr fun requestId => ?_
  obtain ⟨hrepresents, hadded⟩ := (h.represents owner).add requestId
  rw [ensure_congr (Q := requestId ∉ t.abstract.requestsByOwner owner) (by simp [hadded])]
  refine bind_congr fun _ => ?_
  rw [map_pure, (h.update hrepresents _ owner).2]
  rfl

theorem claim_refines (h : t.Sound) (accepts : Bool) :
    abstract <$> t.claim env id hint accepts = t.abstract.claim env id hint accepts := by
  unfold claim WithdrawalQueue.claim
  simp only [map_bind]
  refine bind_congr fun _ => bind_congr fun _ => bind_congr fun _ => bind_congr fun _ => ?_
  obtain ⟨requests, hremove, hrepresents⟩ := (h.represents (t.base.queue id).owner).remove id
  rw [hremove, ok_bind]
  rw [ensure_congr (Q := id ∈ t.abstract.requestsByOwner (t.base.queue id).owner) (by simp)]
  refine bind_congr fun _ => bind_congr fun amount => bind_congr fun locked => ?_
  unfold WithdrawalQueue.sendValue
  simp only [bind_assoc, pure_bind]
  refine bind_congr fun _ => bind_congr fun _ => ?_
  rw [map_pure, (h.update hrepresents _ _).2]
  rfl

theorem transfer_refines (h : t.Sound) :
    abstract <$> t.transfer env fromAddr toAddr id = t.abstract.transfer env fromAddr toAddr id := by
  unfold transfer WithdrawalQueue.transfer
  simp only [map_bind]
  refine bind_congr fun _ => bind_congr fun _ => bind_congr fun _ => bind_congr fun _ =>
    bind_congr fun _ => bind_congr fun _ => ?_
  obtain ⟨requests, hremove, hrepresents⟩ := (h.represents fromAddr).remove id
  rw [hremove, ok_bind]
  rw [ensure_congr (Q := id ∈ t.abstract.requestsByOwner fromAddr) (by simp)]
  refine bind_congr fun _ => ?_
  obtain ⟨hsound, habstract⟩ := h.update hrepresents t.base fromAddr
  have hsets := congrArg WithdrawalQueue.requestsByOwner habstract
  obtain ⟨hadd, hadded⟩ := (hsound.represents toAddr).add id
  rw [hsets] at hadd hadded
  rw [ensure_congr (Q := id ∉ Function.update t.abstract.requestsByOwner fromAddr
    ((t.abstract.requestsByOwner fromAddr).erase id) toAddr) (by simp [hadded])]
  refine bind_congr fun _ => ?_
  rw [map_pure, (hsound.update hadd _ toAddr).2, hsets]
  rfl

/-! ## Runs -/

/-- The storage before `_initializeQueue`, and right after it. -/
def Initial (t : TokenQueue) : Prop :=
  WithdrawalQueue.Initial t.abstract ∧ ∀ owner, t.requestsByOwner owner = .empty

/-- The calls that a run is made of, as `WithdrawalQueue.AnyStep` has them. -/
inductive Step : TokenQueue → TokenQueue → Prop where
  | enqueue {t t' : TokenQueue} {env : Env} {bACE shares requestId : Nat} {owner : Address} :
      t.enqueue env bACE shares owner = .ok (t', requestId) → Step t t'
  | claim {t t' : TokenQueue} {env : Env} {id hint : Nat} {accepts : Bool} :
      t.claim env id hint accepts = .ok t' → Step t t'
  | transfer {t t' : TokenQueue} {env : Env} {fromAddr toAddr : Address} {id : Nat} :
      t.transfer env fromAddr toAddr id = .ok t' → Step t t'
  /-- Calls that do not touch the sets. -/
  | base {t : TokenQueue} {q : WithdrawalQueue} :
      WithdrawalQueue.AnyStep t.abstract q →
      q.requestsByOwner = t.abstract.requestsByOwner → Step t { t with base := q }

theorem Sound.enqueue (h : t.Sound) {bACE shares requestId : Nat}
    (hcall : t.enqueue env bACE shares owner = .ok (t', requestId)) : t'.Sound := by
  simp only [TokenQueue.enqueue, bind_eq_ok, pure_eq_ok, Prod.mk.injEq] at hcall
  obtain ⟨_, -, _, -, requestId, -, _, -, rfl, -⟩ := hcall
  exact (h.update ((h.represents owner).add requestId).1 _ owner).1

theorem Sound.claim (h : t.Sound) {accepts : Bool}
    (hcall : t.claim env id hint accepts = .ok t') : t'.Sound := by
  simp only [TokenQueue.claim, bind_eq_ok, pure_eq_ok] at hcall
  obtain ⟨_, -, _, -, _, -, _, -, ⟨requests, _⟩, hremove, _, -, _, -, _, -, _, -, rfl⟩ := hcall
  exact (h.update ((h.represents _).of_remove hremove) _ _).1

theorem Sound.transfer (h : t.Sound)
    (hcall : t.transfer env fromAddr toAddr id = .ok t') : t'.Sound := by
  simp only [TokenQueue.transfer, bind_eq_ok, pure_eq_ok] at hcall
  obtain ⟨_, -, _, -, _, -, _, -, _, -, _, -, ⟨requests, _⟩, hremove, _, -, _, -, rfl⟩ := hcall
  obtain ⟨hsound, -⟩ := h.update ((h.represents fromAddr).of_remove hremove) t.base fromAddr
  exact (hsound.update ((hsound.represents toAddr).add id).1 _ toAddr).1

theorem ok_of_map {α β : Type} {f : α → β} {x : Call QueueError α} {y : Call QueueError β} {a : α}
    (h : f <$> x = y) (hx : x = .ok a) : y = .ok (f a) := by
  rw [← h, hx]
  rfl

/-- **Every step is one of the queue with finite sets.** -/
theorem Sound.step (h : t.Sound) (hs : Step t t') :
    t'.Sound ∧ WithdrawalQueue.AnyStep t.abstract t'.abstract := by
  cases hs with
  | @enqueue _ env bACE shares _ _ hcall =>
    have hrefines := ok_of_map (enqueue_refines h bACE shares) hcall
    exact ⟨h.enqueue hcall, .enqueue trivial hrefines⟩
  | claim hcall => exact ⟨h.claim hcall, .claim (ok_of_map (claim_refines h _) hcall)⟩
  | transfer hcall => exact ⟨h.transfer hcall, .transfer (ok_of_map (transfer_refines h) hcall)⟩
  | @base q hstep hsets =>
    refine ⟨h, ?_⟩
    have heq : abstract { t with base := q } = q := by
      unfold abstract at hsets ⊢
      simp only at hsets ⊢
      rw [← hsets]
    rw [heq]
    exact hstep

theorem sound_of_reachable (h : Reachable Initial Step t) :
    t.Sound ∧ Reachable WithdrawalQueue.Initial WithdrawalQueue.AnyStep t.abstract := by
  induction h with
  | init h₀ =>
    refine ⟨fun owner => ?_, .init h₀.1⟩
    rw [h₀.2 owner]
    exact .nil
  | step _ hs ih =>
    obtain ⟨hsound, hstep⟩ := ih.1.step hs
    exact ⟨hsound, ih.2.step hstep⟩

/-! ## The views in every run -/

/-- The requests that exist as tokens. -/
def tokens (t : TokenQueue) : Finset Nat :=
  {id ∈ Finset.Icc 1 t.base.lastRequestId | (t.base.queue id).claimed = false}

theorem mem_tokens : id ∈ t.tokens ↔
    0 < id ∧ id ≤ t.base.lastRequestId ∧ (t.base.queue id).claimed = false := by
  rw [tokens, Finset.mem_filter, Finset.mem_Icc, and_assoc]
  rfl

theorem ownerOf_eq_ok_iff :
    t.base.ownerOf id = .ok owner ↔ id ∈ t.tokens ∧ (t.base.queue id).owner = owner := by
  simp only [WithdrawalQueue.ownerOf, bind_eq_ok, require_eq_ok, pure_eq_ok, mem_tokens]
  constructor
  · rintro ⟨_, ⟨hzero, hle⟩, _, hclaimed, howner⟩
    exact ⟨⟨Nat.pos_of_ne_zero hzero, hle, hclaimed⟩, howner⟩
  · rintro ⟨⟨hpos, hle, hclaimed⟩, howner⟩
    exact ⟨(), ⟨hpos.ne', hle⟩, (), hclaimed, howner⟩

/-- The set of an owner holds the tokens of that owner. -/
theorem represents_tokens (h : Reachable Initial Step t) (owner : Address) :
    (t.requestsByOwner owner).Represents {id ∈ t.tokens | (t.base.queue id).owner = owner} := by
  obtain ⟨hsound, hreachable⟩ := sound_of_reachable h
  have howners := (WithdrawalQueue.represented_of_reachable hreachable).owners
  have hset : t.abstract.requestsByOwner owner
      = {id ∈ t.tokens | (t.base.queue id).owner = owner} := by
    ext id
    rw [Finset.mem_filter, mem_tokens, and_assoc, and_assoc]
    exact howners id owner
  rw [← hset]
  exact hsound.represents owner

/--
**Tokens are enumerated exactly.** In every run, `getWithdrawalRequests` lists, without repetition,
the requests that `ownerOf` gives to the owner, and `balanceOf` is their number. Together the
balances count every request that is not claimed once.

The functions that write to the sets do with arrays and positions what they do with finite sets,
and revert when these do.
-/
theorem tokens_enumerated (h : Reachable Initial Step t) :
    (∀ owner, (t.getWithdrawalRequests owner).Nodup ∧
      ∀ id, id ∈ t.getWithdrawalRequests owner ↔ t.base.ownerOf id = .ok owner) ∧
    (∀ owner, owner ≠ 0 → t.balanceOf owner = .ok (t.getWithdrawalRequests owner).length) ∧
    (∀ owners : Finset Address, (∀ id owner, t.base.ownerOf id = .ok owner → owner ∈ owners) →
      ∑ owner ∈ owners, (t.getWithdrawalRequests owner).length = t.tokens.card) ∧
    (∀ env bACE shares owner, (fun r => (r.1.abstract, r.2)) <$> t.enqueue env bACE shares owner
      = t.abstract.enqueue env bACE shares owner) ∧
    (∀ env id hint accepts,
      abstract <$> t.claim env id hint accepts = t.abstract.claim env id hint accepts) ∧
    ∀ env fromAddr toAddr id,
      abstract <$> t.transfer env fromAddr toAddr id = t.abstract.transfer env fromAddr toAddr id := by
  obtain ⟨hsound, -⟩ := sound_of_reachable h
  refine ⟨fun owner => ⟨(hsound owner).nodup, fun id => ?_⟩, fun owner howner => ?_,
    fun owners hall => ?_, fun _ _ _ _ => enqueue_refines hsound _ _,
    fun _ _ _ _ => claim_refines hsound _, fun _ _ _ _ => transfer_refines hsound⟩
  · rw [ownerOf_eq_ok_iff]
    exact ((represents_tokens h owner).mem_iff id).trans Finset.mem_filter
  · unfold balanceOf
    rw [require_of howner]
    rfl
  · have hmaps : ∀ id ∈ t.tokens, (t.base.queue id).owner ∈ owners := fun id hid =>
      hall id _ (ownerOf_eq_ok_iff.mpr ⟨hid, rfl⟩)
    rw [Finset.card_eq_sum_card_fiberwise hmaps]
    exact Finset.sum_congr rfl fun owner _ => (represents_tokens h owner).length_eq

/-! A request is made and changes hands. -/

def exampleTokens : TokenQueue where
  base := WithdrawalQueue.exampleBlankQueue.initializeQueue (WithdrawalQueue.exampleQueueEnv 0)
  requestsByOwner _ := .empty

theorem tokens_enumerated_transferred :
    ∃ t, Reachable Initial Step t ∧ t.balanceOf 8 = .ok (t.getWithdrawalRequests 8).length ∧
      (1 ∈ t.getWithdrawalRequests 8 ↔ t.base.ownerOf 1 = .ok 8) := by
  have hinit : Initial exampleTokens :=
    ⟨⟨WithdrawalQueue.exampleBlankQueue, WithdrawalQueue.exampleQueueEnv 0,
      ⟨rfl, rfl, rfl, rfl, fun _ => rfl⟩, rfl⟩, fun _ => rfl⟩
  have h₀ : Reachable Initial Step exampleTokens := .init hinit
  have h₁ := h₀.step (@Step.enqueue _ _ (WithdrawalQueue.exampleQueueEnv 0) 100 100 _ 7
    (eq_ok_result _ (by decide +kernel)))
  have h₂ := h₁.step (@Step.transfer _ _ (WithdrawalQueue.exampleQueueEnv 0) 7 8 1
    (eq_ok_result _ (by decide +kernel)))
  obtain ⟨hlists, hbalances, -⟩ := tokens_enumerated h₂
  exact ⟨_, h₂, hbalances 8 (by decide), (hlists 8).2 1⟩

end TokenQueue

end Catalist
