import Catalist.Pool.Base
import Catalist.Lib.Sums
import Mathlib.Data.FinEnum

/-!
# The token

`BACE.sol` and the pause flag of `Pausable.sol`. The contract is abstract: the total pooled ace
comes from the contract that inherits from it, so the functions that read it take the call
`pooled` for `_getTotalPooledAce`.

External functions keep their names. An internal one with the same name, up to its underscore, is
called `transferInternal`, `approveInternal` and so on. Events are not modelled, but the amounts
that are only computed for an event can revert and are.
-/

namespace Catalist

open Solidity Ledger

/-- The storage of the token. -/
structure BACE where
  /-- `address(this)` -/
  self : Address
  shares : Address → Nat
  allowances : Address → Address → Nat
  totalShares : Nat
  /-- `ACTIVE_FLAG_POSITION` -/
  active : Bool

def INITIAL_TOKEN_HOLDER : Address := 0xdead

def INFINITE_ALLOWANCE : Nat := 2 ^ 256 - 1

namespace BACE

variable (t : BACE) (pooled : Call PoolError Nat)

/-! ## Rates -/

def getSharesByPooledAce (aceAmount : Nat) : Call PoolError Nat := do
  let product ← checkedMul 256 aceAmount t.totalShares
  let totalPooledAce ← pooled
  checkedDiv product totalPooledAce

def getPooledAceByShares (sharesAmount : Nat) : Call PoolError Nat := do
  let totalPooledAce ← pooled
  let product ← checkedMul 256 sharesAmount totalPooledAce
  checkedDiv product t.totalShares

def sharesOf (account : Address) : Nat := t.shares account

def balanceOf (account : Address) : Call PoolError Nat :=
  t.getPooledAceByShares pooled (t.sharesOf account)

/-! ## Internal functions -/

/-- `_approve` -/
def approveInternal (owner spender : Address) (amount : Nat) : Call PoolError BACE := do
  require (owner ≠ 0) .approveFromZeroAddr
  require (spender ≠ 0) .approveToZeroAddr
  return { t with
    allowances := Function.update t.allowances owner
      (Function.update (t.allowances owner) spender amount) }

/-- `_spendAllowance` -/
def spendAllowance (owner spender : Address) (amount : Nat) : Call PoolError BACE := do
  let currentAllowance := t.allowances owner spender
  if currentAllowance ≠ INFINITE_ALLOWANCE then do
    require (amount ≤ currentAllowance) .allowanceExceeded
    t.approveInternal owner spender (currentAllowance - amount)
  else return t

/-- `_transferShares` -/
def transferSharesInternal (sender recipient : Address) (sharesAmount : Nat) :
    Call PoolError BACE := do
  require (sender ≠ 0) .transferFromZeroAddr
  require (recipient ≠ 0) .transferToZeroAddr
  require (recipient ≠ t.self) .transferToBACEContract
  require (t.active = true) .contractIsStopped
  let currentSenderShares := t.shares sender
  require (sharesAmount ≤ currentSenderShares) .balanceExceeded
  let senderShares ← checkedSub currentSenderShares sharesAmount
  let t := { t with shares := Function.update t.shares sender senderShares }
  let recipientShares ← checkedAdd 256 (t.shares recipient) sharesAmount
  return { t with shares := Function.update t.shares recipient recipientShares }

/-- `_transfer` -/
def transferInternal (sender recipient : Address) (amount : Nat) : Call PoolError BACE := do
  let sharesToTransfer ← t.getSharesByPooledAce pooled amount
  t.transferSharesInternal sender recipient sharesToTransfer

/-- `_mintShares`; it also returns the new total. -/
def mintShares (recipient : Address) (sharesAmount : Nat) : Call PoolError (BACE × Nat) := do
  require (recipient ≠ 0) .mintToZeroAddr
  let newTotalShares ← checkedAdd 256 t.totalShares sharesAmount
  let recipientShares ← checkedAdd 256 (t.shares recipient) sharesAmount
  return ({ t with
    totalShares := newTotalShares
    shares := Function.update t.shares recipient recipientShares }, newTotalShares)

/-- `_burnShares`; it also returns the new total. -/
def burnShares (account : Address) (sharesAmount : Nat) : Call PoolError (BACE × Nat) := do
  require (account ≠ 0) .burnFromZeroAddr
  let accountShares := t.shares account
  require (sharesAmount ≤ accountShares) .balanceExceeded
  let _preRebaseTokenAmount ← t.getPooledAceByShares pooled sharesAmount
  let newTotalShares ← checkedSub t.totalShares sharesAmount
  let newAccountShares ← checkedSub accountShares sharesAmount
  let t := { t with
    totalShares := newTotalShares
    shares := Function.update t.shares account newAccountShares }
  let _postRebaseTokenAmount ← t.getPooledAceByShares pooled sharesAmount
  return (t, newTotalShares)

/-- `_emitTransferAfterMintingShares`: the amount of the event. -/
def emitTransferAfterMintingShares (sharesAmount : Nat) : Call PoolError Unit := do
  let _ ← t.getPooledAceByShares pooled sharesAmount
  return ()

/-- `_mintInitialShares` -/
def mintInitialShares (sharesAmount : Nat) : Call PoolError BACE := do
  let (t, _) ← t.mintShares INITIAL_TOKEN_HOLDER sharesAmount
  t.emitTransferAfterMintingShares pooled sharesAmount
  return t

/-! ## External functions -/

def transfer (sender recipient : Address) (amount : Nat) : Call PoolError BACE :=
  t.transferInternal pooled sender recipient amount

def approve (sender spender : Address) (amount : Nat) : Call PoolError BACE :=
  t.approveInternal sender spender amount

/-- `transferFrom`, called by `caller`. -/
def transferFrom (caller sender recipient : Address) (amount : Nat) : Call PoolError BACE := do
  let t ← t.spendAllowance sender caller amount
  t.transferInternal pooled sender recipient amount

def increaseAllowance (sender spender : Address) (addedValue : Nat) : Call PoolError BACE := do
  let amount ← checkedAdd 256 (t.allowances sender spender) addedValue
  t.approveInternal sender spender amount

def decreaseAllowance (sender spender : Address) (subtractedValue : Nat) : Call PoolError BACE := do
  let currentAllowance := t.allowances sender spender
  require (subtractedValue ≤ currentAllowance) .allowanceBelowZero
  let amount ← checkedSub currentAllowance subtractedValue
  t.approveInternal sender spender amount

/-- `transferShares`; it also returns the amount in tokens. -/
def transferShares (sender recipient : Address) (sharesAmount : Nat) :
    Call PoolError (BACE × Nat) := do
  let t ← t.transferSharesInternal sender recipient sharesAmount
  let tokensAmount ← t.getPooledAceByShares pooled sharesAmount
  return (t, tokensAmount)

/-- `transferSharesFrom`, called by `caller`; it also returns the amount in tokens. -/
def transferSharesFrom (caller sender recipient : Address) (sharesAmount : Nat) :
    Call PoolError (BACE × Nat) := do
  let tokensAmount ← t.getPooledAceByShares pooled sharesAmount
  let t ← t.spendAllowance sender caller tokensAmount
  let t ← t.transferSharesInternal sender recipient sharesAmount
  return (t, tokensAmount)

/-! ## Effects -/

variable {t pooled} {t' : BACE} {P n amount : Nat} {a caller sender recipient owner spender : Address}

theorem getSharesByPooledAce_eq_ok :
    t.getSharesByPooledAce pooled amount = .ok n ↔
      amount * t.totalShares < 2 ^ 256 ∧
      ∃ P, pooled = .ok P ∧ P ≠ 0 ∧ n = amount * t.totalShares / P := by
  simp [getSharesByPooledAce, and_assoc]

theorem getPooledAceByShares_eq_ok :
    t.getPooledAceByShares pooled n = .ok amount ↔
      ∃ P, pooled = .ok P ∧ n * P < 2 ^ 256 ∧ t.totalShares ≠ 0 ∧
        amount = n * P / t.totalShares := by
  simp [getPooledAceByShares, and_assoc]

theorem approveInternal_ok_cases (h : t.approveInternal owner spender amount = .ok t') :
    t' = { t with
      allowances := Function.update t.allowances owner
        (Function.update (t.allowances owner) spender amount) } := by
  simp only [approveInternal, bind_eq_ok, require_eq_ok, pure_eq_ok] at h
  obtain ⟨_, _, _, _, rfl⟩ := h
  rfl

/-- The token with other shares. -/
def withShares (t : BACE) (shares : Address → Nat) : BACE := { t with shares := shares }

/-- An allowance that is not infinite covers what is spent. -/
theorem spendAllowance_ok_cases (h : t.spendAllowance owner spender amount = .ok t') :
    (t.allowances owner spender = INFINITE_ALLOWANCE ∧ t' = t) ∨
    (amount ≤ t.allowances owner spender ∧
      t' = { t with
        allowances := Function.update t.allowances owner
          (Function.update (t.allowances owner) spender (t.allowances owner spender - amount)) }) := by
  simp only [spendAllowance] at h
  split at h
  · simp only [bind_eq_ok, require_eq_ok] at h
    obtain ⟨_, hle, h⟩ := h
    exact .inr ⟨hle, approveInternal_ok_cases h⟩
  · next hinf =>
    rw [not_not] at hinf
    exact .inl ⟨hinf, (pure_eq_ok.mp h).symm⟩

theorem spendAllowance_shares (h : t.spendAllowance owner spender amount = .ok t') :
    ∃ allowances, t' = { t with allowances := allowances } := by
  rcases spendAllowance_ok_cases h with ⟨-, rfl⟩ | ⟨-, rfl⟩
  · exact ⟨_, rfl⟩
  · exact ⟨_, rfl⟩

theorem transferSharesInternal_ok_cases
    (h : t.transferSharesInternal sender recipient n = .ok t') :
    sender ≠ 0 ∧ recipient ≠ 0 ∧ recipient ≠ t.self ∧ t.active = true ∧ n ≤ t.shares sender ∧
    t' = t.withShares (move t.shares sender recipient n) := by
  simp only [transferSharesInternal, bind_eq_ok, require_eq_ok, pure_eq_ok, checkedSub_eq_ok,
    checkedAdd_eq_ok] at h
  obtain ⟨_, hsender, _, hrecipient, _, hself, _, hactive, _, hle, _, ⟨_, rfl⟩, _, ⟨_, rfl⟩, rfl⟩ := h
  exact ⟨hsender, hrecipient, hself, hactive, hle, rfl⟩

theorem mintShares_ok_cases {total : Nat} (h : t.mintShares recipient n = .ok (t', total)) :
    recipient ≠ 0 ∧ total = t.totalShares + n ∧
    t' = { t with
      totalShares := t.totalShares + n
      shares := Function.update t.shares recipient (t.shares recipient + n) } := by
  simp only [mintShares, bind_eq_ok, require_eq_ok, pure_eq_ok, checkedAdd_eq_ok,
    Prod.mk.injEq] at h
  obtain ⟨_, hrecipient, _, ⟨_, rfl⟩, _, ⟨_, rfl⟩, rfl, rfl⟩ := h
  exact ⟨hrecipient, rfl, rfl⟩

theorem burnShares_ok_cases {total : Nat} (h : t.burnShares pooled a n = .ok (t', total)) :
    n ≤ t.shares a ∧ n ≤ t.totalShares ∧ total = t.totalShares - n ∧
    t' = { t with
      totalShares := t.totalShares - n
      shares := Function.update t.shares a (t.shares a - n) } := by
  simp only [burnShares, bind_eq_ok, require_eq_ok, pure_eq_ok, checkedSub_eq_ok,
    Prod.mk.injEq] at h
  obtain ⟨_, _, _, hle, _, _, _, ⟨hle', rfl⟩, _, ⟨_, rfl⟩, _, _, rfl, rfl⟩ := h
  exact ⟨hle, hle', rfl, rfl⟩

/-! ## The sum of all shares -/

/-- The total is the sum over all accounts. -/
def Balanced (t : BACE) : Prop := ∑ a, t.shares a = t.totalShares

theorem Balanced.transferSharesInternal (hb : Balanced t)
    (h : t.transferSharesInternal sender recipient n = .ok t') : Balanced t' := by
  obtain ⟨-, -, -, -, hle, rfl⟩ := transferSharesInternal_ok_cases h
  exact (sum_move (Finset.mem_univ _) (Finset.mem_univ _) hle).trans hb

theorem Balanced.mintShares {total : Nat} (hb : Balanced t)
    (h : t.mintShares recipient n = .ok (t', total)) : Balanced t' := by
  obtain ⟨-, -, rfl⟩ := mintShares_ok_cases h
  have hsum := sum_update_add (f := t.shares) (t.shares recipient + n)
    (Finset.mem_univ recipient)
  unfold Balanced at hb ⊢
  simp only
  omega

theorem Balanced.burnShares {total : Nat} (hb : Balanced t)
    (h : t.burnShares pooled a n = .ok (t', total)) : Balanced t' := by
  obtain ⟨hle, hle', -, rfl⟩ := burnShares_ok_cases h
  have hsum := sum_update_add (f := t.shares) (t.shares a - n) (Finset.mem_univ a)
  unfold Balanced at hb ⊢
  simp only
  omega

/-! ## What users can do -/

/-- A call of the token with its arguments. -/
inductive TokenOp where
  | transfer (recipient : Address) (amount : Nat)
  | transferFrom (sender recipient : Address) (amount : Nat)
  | transferShares (recipient : Address) (sharesAmount : Nat)
  | transferSharesFrom (sender recipient : Address) (sharesAmount : Nat)
  | approve (spender : Address) (amount : Nat)
  | increaseAllowance (spender : Address) (addedValue : Nat)
  | decreaseAllowance (spender : Address) (subtractedValue : Nat)
deriving DecidableEq, Repr

/-- The call, made by `caller`, without its return value. -/
def TokenOp.run (op : TokenOp) (t : BACE) (pooled : Call PoolError Nat) (caller : Address) :
    Call PoolError BACE :=
  match op with
  | .transfer recipient amount => t.transfer pooled caller recipient amount
  | .transferFrom sender recipient amount => t.transferFrom pooled caller sender recipient amount
  | .transferShares recipient sharesAmount =>
    Prod.fst <$> t.transferShares pooled caller recipient sharesAmount
  | .transferSharesFrom sender recipient sharesAmount =>
    Prod.fst <$> t.transferSharesFrom pooled caller sender recipient sharesAmount
  | .approve spender amount => t.approve caller spender amount
  | .increaseAllowance spender addedValue => t.increaseAllowance caller spender addedValue
  | .decreaseAllowance spender subtractedValue => t.decreaseAllowance caller spender subtractedValue

/-- Shares were moved from `sender`, and allowances may have changed. -/
def Moved (t t' : BACE) (sender : Address) : Prop :=
  ∃ recipient n allowances, n ≤ t.shares sender ∧
    t' = { t with shares := move t.shares sender recipient n, allowances := allowances }

theorem Moved.balanced (h : Moved t t' sender) (hb : Balanced t) : Balanced t' := by
  obtain ⟨recipient, n, allowances, hle, rfl⟩ := h
  exact (sum_move (Finset.mem_univ _) (Finset.mem_univ _) hle).trans hb

theorem Moved.totalShares (h : Moved t t' sender) : t'.totalShares = t.totalShares := by
  obtain ⟨recipient, n, allowances, -, rfl⟩ := h
  rfl

theorem Moved.le (h : Moved t t' sender) (ha : a ≠ sender) : t.shares a ≤ t'.shares a := by
  obtain ⟨recipient, n, allowances, -, rfl⟩ := h
  exact le_move ha

theorem moved_of_allowances (allowances : Address → Address → Nat) :
    Moved t { t with allowances := allowances } sender :=
  ⟨sender, 0, allowances, Nat.zero_le _, by rw [move_zero]⟩

theorem moved_of_transferSharesInternal
    (h : t.transferSharesInternal sender recipient n = .ok t') : Moved t t' sender := by
  obtain ⟨-, -, -, -, hle, rfl⟩ := transferSharesInternal_ok_cases h
  exact ⟨recipient, n, _, hle, rfl⟩

/-- Spending an allowance does not matter for what is moved afterwards. -/
theorem Moved.of_spendAllowance {t₁ : BACE} (hspend : t.spendAllowance owner spender amount = .ok t₁)
    (h : Moved t₁ t' sender) : Moved t t' sender := by
  obtain ⟨allowances, rfl⟩ := spendAllowance_shares hspend
  exact h

theorem moved_of_transferInternal (h : t.transferInternal pooled sender recipient amount = .ok t') :
    Moved t t' sender := by
  simp only [transferInternal, bind_eq_ok] at h
  obtain ⟨n, _, h⟩ := h
  exact moved_of_transferSharesInternal h

theorem moved_of_transferFrom (h : t.transferFrom pooled caller sender recipient amount = .ok t') :
    Moved t t' sender := by
  simp only [transferFrom, bind_eq_ok] at h
  obtain ⟨t₁, hspend, h⟩ := h
  exact (moved_of_transferInternal h).of_spendAllowance hspend

theorem moved_of_transferShares {tokens : Nat}
    (h : t.transferShares pooled sender recipient n = .ok (t', tokens)) : Moved t t' sender := by
  simp only [transferShares, bind_eq_ok, pure_eq_ok, Prod.mk.injEq] at h
  obtain ⟨t₁, h, _, _, rfl, _⟩ := h
  exact moved_of_transferSharesInternal h

theorem moved_of_transferSharesFrom {tokens : Nat}
    (h : t.transferSharesFrom pooled caller sender recipient n = .ok (t', tokens)) :
    Moved t t' sender := by
  simp only [transferSharesFrom, bind_eq_ok, pure_eq_ok, Prod.mk.injEq] at h
  obtain ⟨_, _, t₁, hspend, t₂, h, rfl, _⟩ := h
  exact (moved_of_transferSharesInternal h).of_spendAllowance hspend

theorem increaseAllowance_ok_cases (h : t.increaseAllowance owner spender amount = .ok t') :
    ∃ amount, t.approveInternal owner spender amount = .ok t' := by
  simp only [increaseAllowance, bind_eq_ok] at h
  obtain ⟨_, _, h⟩ := h
  exact ⟨_, h⟩

theorem decreaseAllowance_ok_cases (h : t.decreaseAllowance owner spender amount = .ok t') :
    ∃ amount, t.approveInternal owner spender amount = .ok t' := by
  simp only [decreaseAllowance, bind_eq_ok] at h
  obtain ⟨_, _, _, _, h⟩ := h
  exact ⟨_, h⟩

theorem moved_of_approveInternal (h : t.approveInternal owner spender amount = .ok t') :
    Moved t t' sender := by
  obtain rfl := approveInternal_ok_cases h
  exact moved_of_allowances _

/-- The account whose shares a call moves. -/
def TokenOp.source (op : TokenOp) (caller : Address) : Address :=
  match op with
  | .transferFrom sender _ _ => sender
  | .transferSharesFrom sender _ _ => sender
  | _ => caller

/-- Every call moves shares of at most one account. -/
theorem TokenOp.moved {op : TokenOp} (h : op.run t pooled caller = .ok t') :
    Moved t t' (op.source caller) := by
  cases op with
  | transfer recipient amount => exact moved_of_transferInternal h
  | transferFrom sender recipient amount => exact moved_of_transferFrom h
  | transferShares recipient sharesAmount =>
    obtain ⟨⟨t₁, tokens⟩, hrun, rfl⟩ := map_eq_ok.mp h
    exact moved_of_transferShares hrun
  | transferSharesFrom sender recipient sharesAmount =>
    obtain ⟨⟨t₁, tokens⟩, hrun, rfl⟩ := map_eq_ok.mp h
    exact moved_of_transferSharesFrom hrun
  | approve spender amount => exact moved_of_approveInternal h
  | increaseAllowance spender addedValue =>
    obtain ⟨_, h⟩ := increaseAllowance_ok_cases h
    exact moved_of_approveInternal h
  | decreaseAllowance spender subtractedValue =>
    obtain ⟨_, h⟩ := decreaseAllowance_ok_cases h
    exact moved_of_approveInternal h

end BACE

end Catalist
