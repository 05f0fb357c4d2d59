import Catalist.Lib.Sums

/-!
# Escrow accounts

An escrow keeps funds locked for a finite set of claims. The structure carries its solvency: what
all open claims are due is locked, and what is locked is there. Funding it for new claims, paying
one claim and receiving funds are the only operations, and each has to supply what keeps the
escrow solvent.
-/

open Finset

/-- Funds locked for a set of claims. -/
structure Escrow (ι : Type*) where
  claims : Finset ι
  /-- What each claim is due; it matters only for the open ones. -/
  due : ι → ℕ
  locked : ℕ
  balance : ℕ
  /-- The open claims can all be paid from what is locked. -/
  covered : ∑ i ∈ claims, due i ≤ locked
  /-- What is locked is there. -/
  backed : locked ≤ balance

namespace Escrow

variable {ι : Type*} [DecidableEq ι]

/-- An escrow without claims. -/
def empty (ι : Type*) (balance : ℕ) : Escrow ι where
  claims := ∅
  due := fun _ => 0
  locked := 0
  balance := balance
  covered := by simp
  backed := Nat.zero_le _

omit [DecidableEq ι] in
/-- No claim asks for more than what is locked. -/
theorem due_le_locked (e : Escrow ι) {i : ι} (hi : i ∈ e.claims) : e.due i ≤ e.locked :=
  (Ledger.le_sum hi).trans e.covered

/-- Lock `amount` for the claims of `new`, which may be due any amounts up to that in total. -/
def fund (e : Escrow ι) (new : Finset ι) (due : ι → ℕ) (amount : ℕ)
    (hnew : Disjoint e.claims new) (hold : ∀ i ∈ e.claims, due i = e.due i)
    (hamount : ∑ i ∈ new, due i ≤ amount) : Escrow ι where
  claims := e.claims ∪ new
  due := due
  locked := e.locked + amount
  balance := e.balance + amount
  covered := by
    rw [sum_union hnew, sum_congr rfl hold]
    exact Nat.add_le_add e.covered hamount
  backed := Nat.add_le_add_right e.backed amount

section fund

variable (e : Escrow ι) (new : Finset ι) (due : ι → ℕ) (amount : ℕ) (hnew : Disjoint e.claims new)
  (hold : ∀ i ∈ e.claims, due i = e.due i) (hamount : ∑ i ∈ new, due i ≤ amount)

@[simp] theorem fund_claims : (e.fund new due amount hnew hold hamount).claims = e.claims ∪ new :=
  rfl

@[simp] theorem fund_due : (e.fund new due amount hnew hold hamount).due = due := rfl

@[simp] theorem fund_locked : (e.fund new due amount hnew hold hamount).locked = e.locked + amount :=
  rfl

@[simp] theorem fund_balance :
    (e.fund new due amount hnew hold hamount).balance = e.balance + amount := rfl

end fund

/-- Pay out the claim `i`. -/
def settle (e : Escrow ι) (i : ι) (hi : i ∈ e.claims) : Escrow ι where
  claims := e.claims.erase i
  due := e.due
  locked := e.locked - e.due i
  balance := e.balance - e.due i
  covered := by
    have hsum := sum_erase_add e.claims e.due hi
    have hcovered := e.covered
    omega
  backed := Nat.sub_le_sub_right e.backed _

@[simp] theorem settle_claims (e : Escrow ι) {i : ι} (hi : i ∈ e.claims) :
    (e.settle i hi).claims = e.claims.erase i := rfl

@[simp] theorem settle_due (e : Escrow ι) {i : ι} (hi : i ∈ e.claims) :
    (e.settle i hi).due = e.due := rfl

@[simp] theorem settle_locked (e : Escrow ι) {i : ι} (hi : i ∈ e.claims) :
    (e.settle i hi).locked = e.locked - e.due i := rfl

@[simp] theorem settle_balance (e : Escrow ι) {i : ι} (hi : i ∈ e.claims) :
    (e.settle i hi).balance = e.balance - e.due i := rfl

omit [DecidableEq ι] in
/-- Receive funds that are locked for no one. -/
def receive (e : Escrow ι) (amount : ℕ) : Escrow ι where
  claims := e.claims
  due := e.due
  locked := e.locked
  balance := e.balance + amount
  covered := e.covered
  backed := Nat.le_add_right_of_le e.backed

omit [DecidableEq ι] in
@[simp] theorem receive_balance (e : Escrow ι) (amount : ℕ) :
    (e.receive amount).balance = e.balance + amount := rfl

end Escrow
